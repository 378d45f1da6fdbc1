import Catplay.Analysis.Link.Sleep

/-!
# The delay that `sleep` recommends

The delay is right where it ends when the link next sends: `SleepTruth` compares it with what
`reconcile` does before, at and without it. `next_transmit` and `sleep` read the same
deadlines, but they do not treat them alike. A DETECT is repeated only when it is *more* than
200 ms old, and after an EAK the timers of the kept packets are not looked at at all.
These are the only differences (`sleep_truth`).
-/

set_option autoImplicit false

namespace Catplay.Analysis.Link

open Catplay.Library Catplay.Library.Run Catplay.Model.Link

/-- What a driver relies on when it sleeps as long as it is told. -/
structure SleepTruth (l : LinkLayer) : Prop where
  before : ∀ delay, l.sleep = some delay → ∀ waits, waited waits < delay →
    ∃ l', waitFor waits l = some l' ∧ writes l'.events = []
  atDeadline : ∀ delay, l.sleep = some delay → ∀ txBudget l' more,
    LinkLayer.reconcile { l with clock := l.clock + delay } (txBudget + 1) = some (l', more) →
    writes l'.events ≠ [] ∨ l'.status ≠ l.status
  never : l.sleep = none → ∀ waits, ∃ l', waitFor waits l = some l' ∧ writes l'.events = []

/-- A link whose last `reconcile` had nothing more to send, some nanoseconds ago. -/
def Settled (l : LinkLayer) : Prop :=
  ∃ server clock lspNegotiator calls s txBudget l₁ nanos,
    run Session.step (.fresh server clock lspNegotiator) calls = some s ∧
    s.link.reconcile txBudget = some (l₁, false) ∧ l₁.isError = false ∧
    l = { l₁ with events := [], clock := l₁.clock + nanos }

/-- A DETECT is old enough to be repeated, and while packets are reported missing an
acknowledgement is due no later than any retransmission. -/
structure Truthful (l : LinkLayer) : Prop where
  detect : l.status = .detecting → l.server = false → ∀ last, l.detectLastTransmit = some last →
    LinkLayer.detectRetransmit < l.clock - last
  missing : l.missingPsns ≠ [] → ∀ seq entry, l.retransmitMap seq = some entry →
    ∃ deadline, l.pendingAck.deadline = some deadline ∧
      (deadline ≤ entry.timeoutDeadline ∨ deadline ≤ l.clock)

/-! ## What a settled link waits for -/

variable {l : LinkLayer}

/-- What was emitted before does not matter to a silent link. -/
theorem Silent.clearEvents (h : Silent l) : Silent { l with events := [] } := by
  have hnext : ({ l with events := [] } : LinkLayer).nextPayload.2 = l.nextPayload.2 :=
    nextPayload_congr rfl rfl rfl rfl
  refine ⟨h.running, h.noLegacy, ?_, h.server, h.client, h.answered, h.opened, ?_⟩
  · rw [hnext]
    exact h.downgraded
  · rw [hnext]
    exact h.noPayload

/-- A silent link that was not due before. -/
structure Resting (l : LinkLayer) : Prop where
  silent : Silent l
  sane : Sane l
  quiet : l.events = []
  earlier : ∃ clock, clock ≤ l.clock ∧ ¬ Due { l with clock }

theorem Settled.resting (h : Settled l) : Resting l := by
  obtain ⟨server, clock, lspNegotiator, calls, s, txBudget, l₁, nanos, hrun, hreconcile, hrunning,
    rfl⟩ := h
  have hstep : Session.step s (.reconcile txBudget) = some
      { link := { l₁ with events := [] }
        trace := s.trace ++ Session.received (.reconcile txBudget) ++
          l₁.events.map .emitted } := by
    have hcall : Session.callLink s.link (.reconcile txBudget) =
        (s.link.reconcile txBudget).map (·.1) := rfl
    unfold Session.step
    rw [hcall, hreconcile]
    rfl
  have hrun' := run_append.mpr ⟨s, hrun, run_cons_eq_some.mpr ⟨_, hstep, run_nil _⟩⟩
  obtain ⟨-, hsane⟩ := Sane.run hrun'
  have hsame : SameTimers { l₁ with events := [] } l₁ :=
    ⟨rfl, rfl, rfl, rfl, rfl, rfl, rfl, rfl, rfl, rfl⟩
  obtain ⟨l₀, hlast⟩ := transmitLoop_false hreconcile
  obtain ⟨hsilent, hnot⟩ := silent_of_none hlast hrunning (hsame.sane hsane)
  have hback : SameTimers
      { l₁ with events := [], clock := l₁.clock } { l₁ with events := [] } :=
    ⟨rfl, rfl, rfl, rfl, rfl, rfl, rfl, rfl, rfl, rfl⟩
  refine ⟨(hsilent.atClock (l₁.clock + nanos)).clearEvents, ?_, rfl, l₁.clock, by simp,
    fun hdue => hnot ?_⟩
  · exact SameTimers.sane (l := { l₁ with events := [] })
      ⟨rfl, rfl, rfl, rfl, rfl, rfl, rfl, rfl, rfl, rfl⟩ hsane
  · exact hsame.due rfl (hback.due rfl hdue)

/-- **When `sleep` is right.** It ends when the link next sends. -/
theorem Resting.truth (h : Resting l)
    (hbefore : ∀ delay, l.sleep = some delay → ∀ clock, l.clock ≤ clock →
      clock < l.clock + delay → ¬ Due { l with clock })
    (hat : ∀ delay, l.sleep = some delay → Due { l with clock := l.clock + delay })
    (hnever : l.sleep = none → ∀ clock, l.clock ≤ clock → ¬ Due { l with clock }) :
    SleepTruth l := by
  refine ⟨fun delay hdelay waits hwaits => ?_, fun delay hdelay txBudget l' more hreconcile => ?_,
    fun hnone waits => ?_⟩
  · obtain ⟨l', hwait, hwrites⟩ := h.silent.waitFor waits fun clock hlow hhigh =>
      hbefore delay hdelay clock hlow (by omega)
    rw [h.quiet] at hwrites
    exact ⟨l', hwait, hwrites⟩
  · have hsane := (SameTimers.atClock l (l.clock + delay)).sane h.sane
    have hwakes := (h.silent.atClock (l.clock + delay)).reconcile_wakes hsane (hat delay hdelay)
      hreconcile
    have hquiet : ({ l with clock := l.clock + delay } : LinkLayer).events = [] := h.quiet
    rw [hquiet] at hwakes
    exact hwakes
  · obtain ⟨l', hwait, hwrites⟩ := h.silent.waitFor waits fun clock hlow _ =>
      hnever hnone clock hlow
    rw [h.quiet] at hwrites
    exact ⟨l', hwait, hwrites⟩

/-- At the end of the delay the link sends, or `sleep` was wrong. -/
theorem SleepTruth.due (htruth : SleepTruth l) (h : Resting l) {delay : Nat}
    (hdelay : l.sleep = some delay) : Due { l with clock := l.clock + delay } := by
  by_contra hnot
  obtain ⟨l', more, hreconcile, hrests⟩ :=
    (h.silent.atClock (l.clock + delay)).reconcile_rests hnot 1
  have hquiet : ({ l with clock := l.clock + delay } : LinkLayer).events = [] := h.quiet
  rcases htruth.atDeadline delay hdelay 0 l' more hreconcile with hwrites | hstatus
  · refine hwrites ?_
    rw [hrests.writes, hquiet]
    rfl
  · exact hstatus hrests.timers.status

/-! ## The deadlines -/

/-- The earliest deadline of the kept packets has passed when that of some packet has. -/
theorem nearestRetransmit_le {clock : Nat} :
    (∃ deadline, l.nearestRetransmit = some deadline ∧ deadline ≤ clock) ↔
      ∃ seq entry, l.retransmitMap seq = some entry ∧ entry.timeoutDeadline ≤ clock := by
  unfold LinkLayer.nearestRetransmit
  constructor
  · rintro ⟨deadline, hmin, hle⟩
    obtain ⟨⟨seq, entry⟩, hmem, rfl⟩ := List.mem_map.mp (List.min?_mem hmin)
    exact ⟨seq, entry, ByteMap.mem_entries.mp hmem, hle⟩
  · rintro ⟨seq, entry, hentry, hle⟩
    have hmem : entry.timeoutDeadline ∈
        (ByteMap.entries l.retransmitMap).map fun e => e.2.timeoutDeadline :=
      List.mem_map.mpr ⟨(seq, entry), ByteMap.mem_entries.mpr hentry, rfl⟩
    obtain ⟨deadline, hmin⟩ := Option.isSome_iff_exists.mp
      (List.isSome_min?_iff.mpr (List.ne_nil_of_mem hmem))
    exact ⟨deadline, hmin, ((List.min?_eq_some_iff.mp hmin).2 _ hmem).trans hle⟩

/-- Without missing packets a retransmission is due when the deadline of some packet has
passed. -/
theorem retransmit_due_iff (hmissing : l.missingPsns = []) :
    l.nextRetransmitSeq.isSome = true ↔
      ∃ seq entry, l.retransmitMap seq = some entry ∧ entry.timeoutDeadline ≤ l.clock := by
  unfold LinkLayer.nextRetransmitSeq
  rw [hmissing]
  dsimp only
  rw [Option.isSome_map, Option.isSome_iff_ne_none, Ne, List.argmin_eq_none]
  constructor
  · intro hsome
    obtain ⟨⟨seq, entry⟩, hmem⟩ := List.exists_mem_of_ne_nil _ hsome
    obtain ⟨hentry, hle⟩ := List.mem_filter.mp hmem
    exact ⟨seq, entry, ByteMap.mem_entries.mp hentry, by simpa using hle⟩
  · rintro ⟨seq, entry, hentry, hle⟩ hnil
    have hmem : (seq, entry) ∈ (ByteMap.entries l.retransmitMap).filter fun e =>
        e.2.timeoutDeadline ≤ l.clock :=
      List.mem_filter.mpr ⟨ByteMap.mem_entries.mpr hentry, by simpa using hle⟩
    rw [hnil] at hmem
    cases hmem

/-- With missing packets the clock plays no part. -/
theorem retransmit_due_of_missing (hmissing : l.missingPsns ≠ []) (clock : Nat) :
    ({ l with clock } : LinkLayer).nextRetransmitSeq = l.nextRetransmitSeq := by
  unfold LinkLayer.nextRetransmitSeq
  cases hcases : l.missingPsns with
  | nil => exact absurd hcases hmissing
  | cons seq rest => rfl

/-- An acknowledgement that was not due comes due at its deadline. -/
theorem ack_due_iff (earlier : Nat)
    (hnot : ({ l with clock := earlier } : LinkLayer).emptyAckDue = false) (clock : Nat) :
    ({ l with clock } : LinkLayer).emptyAckDue = true ↔
      ∃ deadline, l.pendingAck.deadline = some deadline ∧ deadline ≤ clock := by
  unfold LinkLayer.emptyAckDue at hnot ⊢
  dsimp only at hnot ⊢
  rw [Bool.or_eq_false_iff, Bool.or_eq_false_iff] at hnot
  obtain ⟨⟨-, hbudget⟩, hforce⟩ := hnot
  rw [hbudget, hforce, Bool.or_false, Bool.or_false]
  cases l.pendingAck.deadline with
  | none => simp
  | some deadline => simp

/-- The nearest deadline is one of the deadlines, and no later than any other. -/
theorem nearestDeadline_eq {deadline : Nat} (h : l.nearestDeadline = some deadline) (clock : Nat) :
    deadline ≤ clock ↔
      (∃ seq entry, l.retransmitMap seq = some entry ∧ entry.timeoutDeadline ≤ clock) ∨
      ∃ a, l.pendingAck.deadline = some a ∧ a ≤ clock := by
  rw [← nearestRetransmit_le]
  unfold LinkLayer.nearestDeadline at h
  obtain ⟨hmem, hmin⟩ := List.min?_eq_some_iff.mp h
  simp only [List.mem_append, Option.mem_toList] at hmem hmin
  constructor
  · intro hle
    rcases hmem with hmem | hmem
    · exact Or.inl ⟨deadline, hmem, hle⟩
    · exact Or.inr ⟨deadline, hmem, hle⟩
  · rintro (⟨a, ha, hle⟩ | ⟨a, ha, hle⟩)
    · exact (hmin a (Or.inl ha)).trans hle
    · exact (hmin a (Or.inr ha)).trans hle

/-- Without a nearest deadline there is none. -/
theorem nearestDeadline_none (h : l.nearestDeadline = none) :
    (∀ seq, l.retransmitMap seq = none) ∧ l.pendingAck.deadline = none := by
  unfold LinkLayer.nearestDeadline at h
  have hnil := List.min?_eq_none_iff.mp h
  obtain ⟨hretransmit, hack⟩ := List.append_eq_nil_iff.mp hnil
  refine ⟨fun seq => ?_, Option.toList_eq_nil_iff.mp hack⟩
  by_contra hsome
  obtain ⟨entry, hentry⟩ := Option.ne_none_iff_exists'.mp hsome
  obtain ⟨deadline, hdeadline, -⟩ :=
    nearestRetransmit_le.mpr ⟨seq, entry, hentry, le_refl entry.timeoutDeadline⟩
  rw [hdeadline] at hretransmit
  cases hretransmit

/-! ## When a resting link sends -/

/-- A client that waits for an answer repeats its DETECT when it is old. -/
theorem due_detect (hstatus : l.status = .detecting) (hserver : l.server = false)
    {last : Nat} (hlast : l.detectLastTransmit = some last) (clock : Nat) :
    Due { l with clock } ↔ LinkLayer.detectRetransmit < clock - last := by
  have hdetect : ({ l with clock } : LinkLayer).shouldSendDetect = true ↔
      LinkLayer.detectRetransmit < clock - last := by
    unfold LinkLayer.shouldSendDetect
    dsimp only
    rw [hlast]
    simp
  rw [← hdetect]
  constructor
  · intro hdue
    cases hdue with
    | detect _ _ hdetect => exact hdetect
    | retransmit hbad =>
      have hbad' : l.status = .negotiating ∨ l.status.isData = true := hbad
      simp [hstatus, LinkStatus.isData] at hbad'
    | ack hbad =>
      have hbad' : l.status.isData = true := hbad
      rw [hstatus] at hbad'
      cases hbad'
  · exact fun h => .detect hstatus hserver h

/-- A detecting server and a downgraded link wait for nothing. -/
theorem not_due_of_idle
    (h : (l.status = .detecting ∧ l.server = true) ∨ l.status = .downgrade) (clock : Nat) :
    ¬ Due { l with clock } := by
  have hstatus : l.status ≠ .negotiating ∧ l.status.isData = false := by
    rcases h with ⟨hstatus, -⟩ | hstatus <;> rw [hstatus] <;> decide
  intro hdue
  cases hdue with
  | detect hdetecting hclient =>
    have hclient' : l.server = false := hclient
    have hdetecting' : l.status = .detecting := hdetecting
    rcases h with ⟨-, hserver⟩ | hdown
    · rw [hclient'] at hserver
      cases hserver
    · rw [hdown] at hdetecting'
      cases hdetecting'
  | retransmit hbad =>
    rcases hbad with hbad | hbad
    · exact hstatus.1 hbad
    · have hbad' : l.status.isData = true := hbad
      rw [hstatus.2] at hbad'
      cases hbad'
  | ack hbad =>
    have hbad' : l.status.isData = true := hbad
    rw [hstatus.2] at hbad'
    cases hbad'

/-- No acknowledgement was due in a resting link. -/
theorem Resting.ack_due_iff (h : Resting l) (hdata : l.status.isData = true)
    (clock : Nat) : ({ l with clock } : LinkLayer).emptyAckDue = true ↔
      ∃ deadline, l.pendingAck.deadline = some deadline ∧ deadline ≤ clock := by
  obtain ⟨earlier, -, hnot⟩ := h.earlier
  refine Analysis.Link.ack_due_iff earlier ?_ clock
  rw [Bool.eq_false_iff]
  exact fun hdue => hnot (.ack hdata hdue)

/-- Only the data phase owes acknowledgements. -/
theorem Resting.calm (h : Resting l) (hdata : l.status.isData = false) :
    Calm l := by
  refine h.sane.calm ?_ (Or.inl ?_)
  · intro hbad
    have hrunning := h.silent.running
    rw [isError_iff.mpr hbad] at hrunning
    cases hrunning
  · intro hbad
    have hdata' := phaseOf_eq_data.mp hbad
    rw [hdata] at hdata'
    cases hdata'

/-- **Without missing packets** the link sends at the nearest of its deadlines. -/
theorem Resting.due_timers (h : Resting l) (hmissing : l.missingPsns = [])
    (hstatus : l.status = .negotiating ∨ l.status.isData = true) (clock : Nat) :
    Due { l with clock } ↔
      (∃ seq entry, l.retransmitMap seq = some entry ∧ entry.timeoutDeadline ≤ clock) ∨
      ∃ a, l.pendingAck.deadline = some a ∧ a ≤ clock := by
  have hretransmit : ({ l with clock } : LinkLayer).nextRetransmitSeq.isSome = true ↔
      ∃ seq entry, l.retransmitMap seq = some entry ∧ entry.timeoutDeadline ≤ clock :=
    retransmit_due_iff hmissing
  rw [← hretransmit]
  constructor
  · intro hdue
    cases hdue with
    | detect hbad =>
      have hbad' : l.status = .detecting := hbad
      simp [hbad', LinkStatus.isData] at hstatus
    | retransmit _ hseq => exact Or.inl hseq
    | ack hdata hack => exact Or.inr ((h.ack_due_iff hdata clock).mp hack)
  · rintro (hseq | hack)
    · exact .retransmit hstatus hseq
    · rcases Bool.eq_false_or_eq_true l.status.isData with hdata | hdata
      · exact .ack hdata ((h.ack_due_iff hdata clock).mpr hack)
      · obtain ⟨a, ha, -⟩ := hack
        rw [(h.calm hdata).deadline] at ha
        cases ha

/-- **With missing packets** only an acknowledgement is waited for. -/
theorem Resting.due_missing (h : Resting l) (hmissing : l.missingPsns ≠ [])
    (hdata : l.status.isData = true) (clock : Nat) :
    Due { l with clock } ↔ ∃ a, l.pendingAck.deadline = some a ∧ a ≤ clock := by
  constructor
  · intro hdue
    cases hdue with
    | detect hbad =>
      have hbad' : l.status = .detecting := hbad
      rw [hbad'] at hdata
      cases hdata
    | retransmit _ hseq =>
      obtain ⟨earlier, -, hnot⟩ := h.earlier
      refine absurd (Due.retransmit (l := { l with clock := earlier }) (Or.inr hdata) ?_) hnot
      rw [retransmit_due_of_missing hmissing] at hseq ⊢
      exact hseq
    | ack _ hack => exact (h.ack_due_iff hdata clock).mp hack
  · exact fun hack => .ack hdata ((h.ack_due_iff hdata clock).mpr hack)

/-! ## The truth of `sleep` -/

/-- A client that detects is told the truth once its DETECT is old enough. -/
theorem Resting.truth_of_client (h : Resting l) (hstatus : l.status = .detecting)
    (hserver : l.server = false) {last : Nat} (hlast : l.detectLastTransmit = some last) :
    SleepTruth l ↔ LinkLayer.detectRetransmit < l.clock - last := by
  have hsleep : l.sleep = some (LinkLayer.detectRetransmit - (l.clock - last)) := by
    unfold LinkLayer.sleep
    rw [h.silent.running, if_neg (by simp), if_pos hstatus, if_neg (by rw [hserver]; simp), hlast]
    rfl
  constructor
  · intro htruth
    have hdue := (due_detect hstatus hserver hlast _).mp (htruth.due h hsleep)
    omega
  · intro hold
    refine h.truth (fun delay hdelay clock hlow hhigh => ?_) (fun delay hdelay => ?_)
      fun hnone => ?_
    · rw [hsleep] at hdelay
      obtain rfl := Option.some.inj hdelay
      omega
    · rw [hsleep] at hdelay
      obtain rfl := Option.some.inj hdelay
      rw [due_detect hstatus hserver hlast]
      omega
    · rw [hsleep] at hnone
      cases hnone

/-- Past the detection the delay lasts until the nearest deadline. -/
theorem sleep_of_deadline (hrunning : l.isError = false) (hstatus : l.status ≠ .detecting) :
    l.sleep = l.nearestDeadline.map fun deadline => deadline - l.clock := by
  unfold LinkLayer.sleep
  rw [hrunning, if_neg (by simp), if_neg hstatus]

/-- A link that sends at its nearest deadline is told the truth. -/
theorem Resting.truth_of_timers (h : Resting l) (hstatus : l.status ≠ .detecting)
    (hdue : ∀ clock, l.clock ≤ clock → (Due { l with clock } ↔
      ∃ deadline, l.nearestDeadline = some deadline ∧ deadline ≤ clock)) : SleepTruth l := by
  have hsleep := sleep_of_deadline h.silent.running hstatus
  cases hdeadline : l.nearestDeadline with
  | none =>
    rw [hdeadline, Option.map_none] at hsleep
    refine h.truth (fun delay hdelay => ?_) (fun delay hdelay => ?_) fun _ clock hlow hbad => ?_
    · rw [hsleep] at hdelay
      cases hdelay
    · rw [hsleep] at hdelay
      cases hdelay
    · obtain ⟨deadline, hsome, -⟩ := (hdue clock hlow).mp hbad
      rw [hdeadline] at hsome
      cases hsome
  | some deadline =>
    rw [hdeadline, Option.map_some] at hsleep
    refine h.truth (fun delay hdelay clock hlow hhigh hbad => ?_) (fun delay hdelay => ?_)
      fun hnone => ?_
    · rw [hsleep] at hdelay
      obtain rfl := Option.some.inj hdelay
      obtain ⟨deadline', hsome, hle⟩ := (hdue clock hlow).mp hbad
      rw [hdeadline] at hsome
      obtain rfl := Option.some.inj hsome
      omega
    · rw [hsleep] at hdelay
      obtain rfl := Option.some.inj hdelay
      exact (hdue _ (by omega)).mpr ⟨deadline, hdeadline, by omega⟩
    · rw [hsleep] at hnone
      cases hnone

/-- The nearest deadline has passed when one of the deadlines has. -/
theorem nearestDeadline_le {clock : Nat} :
    (∃ deadline, l.nearestDeadline = some deadline ∧ deadline ≤ clock) ↔
      (∃ seq entry, l.retransmitMap seq = some entry ∧ entry.timeoutDeadline ≤ clock) ∨
      ∃ a, l.pendingAck.deadline = some a ∧ a ≤ clock := by
  cases hdeadline : l.nearestDeadline with
  | none =>
    obtain ⟨hempty, hack⟩ := nearestDeadline_none hdeadline
    simp [hempty, hack]
  | some deadline =>
    rw [← nearestDeadline_eq hdeadline]
    simp

/-- While packets are reported missing the delay is right when an acknowledgement comes first. -/
theorem Resting.truth_of_missing (h : Resting l) (hmissing : l.missingPsns ≠ [])
    (hdata : l.status.isData = true) :
    SleepTruth l ↔ ∀ seq entry, l.retransmitMap seq = some entry →
      ∃ deadline, l.pendingAck.deadline = some deadline ∧
        (deadline ≤ entry.timeoutDeadline ∨ deadline ≤ l.clock) := by
  have hstatus : l.status ≠ .detecting := by
    intro hbad
    rw [hbad] at hdata
    cases hdata
  constructor
  · intro htruth seq entry hentry
    -- the nearest deadline is at most that of this packet
    have hsome : l.nearestDeadline ≠ none := by
      intro hnone
      rw [(nearestDeadline_none hnone).1 seq] at hentry
      cases hentry
    obtain ⟨deadline, hdeadline⟩ := Option.ne_none_iff_exists'.mp hsome
    have hle := (nearestDeadline_eq hdeadline entry.timeoutDeadline).mpr
      (Or.inl ⟨seq, entry, hentry, le_refl _⟩)
    have hsleep : l.sleep = some (deadline - l.clock) := by
      rw [sleep_of_deadline h.silent.running hstatus, hdeadline]
      rfl
    obtain ⟨a, ha, hlate⟩ := (h.due_missing hmissing hdata _).mp (htruth.due h hsleep)
    exact ⟨a, ha, by omega⟩
  · intro hfirst
    refine h.truth_of_timers hstatus fun clock hlow => ?_
    rw [h.due_missing hmissing hdata, nearestDeadline_le]
    refine ⟨Or.inr, ?_⟩
    rintro (⟨seq, entry, hentry, hle⟩ | hack)
    · obtain ⟨a, ha, hcases⟩ := hfirst seq entry hentry
      exact ⟨a, ha, by omega⟩
    · exact hack

/-- **The truth of `sleep`.** After a `reconcile` that had nothing more to send, the delay is
right exactly in the states described by `Truthful`. -/
theorem sleep_truth (l : LinkLayer) (h : Settled l) : SleepTruth l ↔ Truthful l := by
  have hrests := h.resting
  have hrunning := hrests.silent.running
  have hmissing_data : l.missingPsns ≠ [] → l.status.isData = true := by
    intro hmissing
    by_contra hdata
    refine hmissing (hrests.sane.missing ?_ ?_)
    · intro hbad
      rw [isError_iff.mpr hbad] at hrunning
      cases hrunning
    · exact fun hbad => hdata (phaseOf_eq_data.mp hbad)
  by_cases hdetecting : l.status = .detecting
  · have hmissing : l.missingPsns = [] := by
      by_contra hbad
      have hdata := hmissing_data hbad
      rw [hdetecting] at hdata
      cases hdata
    rcases Bool.eq_false_or_eq_true l.server with hserver | hserver
    · have hsleep : l.sleep = none := by
        unfold LinkLayer.sleep
        rw [hrunning, if_neg (by simp), if_pos hdetecting, if_pos hserver]
      have hnot := not_due_of_idle (Or.inl ⟨hdetecting, hserver⟩)
      refine iff_of_true (hrests.truth ?_ ?_ fun _ clock _ => hnot clock) ⟨?_, ?_⟩
      · intro delay hdelay
        rw [hsleep] at hdelay
        cases hdelay
      · intro delay hdelay
        rw [hsleep] at hdelay
        cases hdelay
      · intro _ hclient
        rw [hserver] at hclient
        cases hclient
      · exact fun hbad => absurd hmissing hbad
    · obtain ⟨last, hlast⟩ := Option.isSome_iff_exists.mp
        (hrests.silent.client hdetecting hserver)
      rw [hrests.truth_of_client hdetecting hserver hlast]
      refine ⟨fun hold => ⟨fun _ _ last' hlast' => ?_, fun hbad => absurd hmissing hbad⟩,
        fun htruthful => htruthful.detect hdetecting hserver last hlast⟩
      rw [hlast] at hlast'
      obtain rfl := Option.some.inj hlast'
      exact hold
  · have hdetect : l.status = .detecting → l.server = false → ∀ last,
        l.detectLastTransmit = some last → LinkLayer.detectRetransmit < l.clock - last :=
      fun hbad => absurd hbad hdetecting
    by_cases hmissing : l.missingPsns = []
    · refine iff_of_true (hrests.truth_of_timers hdetecting fun clock _ => ?_)
        ⟨hdetect, fun hbad => absurd hmissing hbad⟩
      by_cases hdown : l.status = .downgrade
      · have hdata : l.status.isData = false := by
          rw [hdown]
          rfl
        refine iff_of_false (not_due_of_idle (Or.inr hdown) clock) ?_
        rw [nearestDeadline_le, (hrests.calm hdata).deadline]
        rintro (⟨seq, entry, hentry, -⟩ | ⟨a, ha, -⟩)
        · have hempty := hrests.sane.early (Or.inr (congrArg phaseOf hdown)) seq
          unfold coreOf at hempty
          dsimp only at hempty
          rw [hentry] at hempty
          cases hempty
        · cases ha
      · rw [nearestDeadline_le]
        refine hrests.due_timers hmissing ?_ clock
        cases hstatus : l.status with
        | detecting => exact absurd hstatus hdetecting
        | downgrade => exact absurd hstatus hdown
        | error e => simp [LinkLayer.isError, hstatus] at hrunning
        | negotiating => exact Or.inl rfl
        | writable | unwritable | recovery => exact Or.inr rfl
    · rw [hrests.truth_of_missing hmissing (hmissing_data hmissing)]
      exact ⟨fun hfirst => ⟨hdetect, fun _ => hfirst⟩, fun htruthful => htruthful.missing hmissing⟩

/-- A client that has sent its first DETECT, the given time ago. -/
def detectedClient (nanos : Nat) : LinkLayer :=
  { LinkLayer.withClockAndLspNegotiator false 0 (SimpleLSPNegotiator .bluetooth) with
    detectLastTransmit := some 0, clock := nanos }

theorem settled_detectedClient (nanos : Nat) : Settled (detectedClient nanos) :=
  ⟨false, 0, SimpleLSPNegotiator .bluetooth, [.reconcile 1], _, 1, detectedClient 0, nanos, rfl,
    rfl, rfl, by simp [detectedClient, LinkLayer.withClockAndLspNegotiator]⟩

/-- A nanosecond after the 200 ms the client need not sleep. -/
theorem sleep_truth_detectedClient :
    (detectedClient 200000001).sleep = some 0 ∧ SleepTruth (detectedClient 200000001) := by
  refine ⟨rfl, (sleep_truth _ (settled_detectedClient 200000001)).mpr ⟨fun _ _ last hlast => ?_,
    fun hbad => absurd rfl hbad⟩⟩
  obtain rfl : 0 = last := Option.some.inj hlast
  decide

/-- **Spinning.** A client that sleeps 200 ms after its DETECT, as it is told, wakes up to do
nothing. -/
theorem detectedClient_spins : ¬ ∀ l, Settled l → SleepTruth l := by
  intro h
  have htruth := h _ (settled_detectedClient 0)
  rcases htruth.atDeadline 200000000 rfl 0 _ _ rfl with hwrites | hstatus
  · exact hwrites rfl
  · exact hstatus rfl

end Catplay.Analysis.Link
