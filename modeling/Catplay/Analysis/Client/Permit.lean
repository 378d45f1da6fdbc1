import Catplay.Analysis.Link.Calls
import Catplay.Model.Client.AsyncClient

/-!
# The transmit permit of the client

The client holds one permit: it is gone with a frame that is handed to the drain, and comes back
when the drain takes it. A frame that the link generated has to pass the channel of events first,
and there it does not count. So the permit keeps frames apart exactly as long as none waits in the
channel when the link is asked for the next (`permit_iff`).
-/

set_option autoImplicit false

namespace Catplay.Analysis.Client.Permit

open Catplay.Library.Checked Catplay.Library.Run
open Catplay.Model.Link Catplay.Model.Client Catplay.Analysis.Link

/-! ## Statements -/

/-- The frames that were generated and not yet taken by the drain. -/
def untaken (s : AsyncClient) : Nat :=
  (writes s.linkEventsRx.items).length + s.send.items.length

/-- The link generates a frame when it is reconciled. -/
def Generates (s : AsyncClient) : Prop :=
  ∃ link more, s.link.reconcile (if s.isTxAllowed.2 then 1 else 0) = some (link, more) ∧
    writes link.events ≠ []

/-- A step generates no frame while an earlier one is not taken. -/
def Orderly (s : AsyncClient) (action : ClientAction) : Prop :=
  ∀ callback s₁ produced, action = .reconcile callback →
    s.handleNext callback = .ok (s₁, produced) → Generates s₁ → untaken s₁ = 0

/-- At most one frame is handed to the drain and not taken, and every step is orderly. -/
def PermitHolds (s : AsyncClient) (actions : List ClientAction) : Prop :=
  (∀ front t, front <+: actions → run clientStep s front = some t → t.send.items.length ≤ 1) ∧
    AllSteps clientStep Orderly s actions

/-- The link has a frame to transmit. -/
def Transmits (l : LinkLayer) : Prop :=
  ∃ l' next, l.drainEvents.nextTransmit = some (l', some next)

/-- When the permit is free and the link has a frame to transmit, none waits in the channel behind
the event that is handled. -/
def NoneWaits (s : AsyncClient) (action : ClientAction) : Prop :=
  ∀ callback s₁ produced, action = .reconcile callback →
    s.handleNext callback = .ok (s₁, produced) → s₁.isTxAllowed.2 = true → Transmits s₁.link →
      writes s.linkEventsRx.queue = []

/-! ## Writes in the channel -/

@[simp] theorem writes_append (a b : List LinkEvent) : writes (a ++ b) = writes a ++ writes b :=
  List.filterMap_append

theorem writes_send (rx : Receiver LinkEvent) (sent : List LinkEvent) :
    writes (rx.send sent).items = writes rx.items ++ writes sent := by
  simp [Receiver.send, Receiver.items]

theorem items_sleep {α : Type} (rx : Receiver α) : rx.sleep.items = rx.items := by
  obtain ⟨queue, cached⟩ := rx
  cases cached with
  | some _ => rfl
  | none =>
    cases queue with
    | nil => rfl
    | cons _ _ => rfl

/-! ## Calls that generate nothing -/

/-- Frames stay where they are. -/
structure Still (s t : AsyncClient) : Prop where
  events : t.link.events = []
  writes : writes t.linkEventsRx.items = writes s.linkEventsRx.items
  send : t.send = s.send
  pendingTx : t.pendingTx = s.pendingTx

variable {s t : AsyncClient} {l l' : LinkLayer} {callback : Callback} {produced more : Bool}

theorem Still.refl (h : s.link.events = []) : Still s s := ⟨h, rfl, rfl, rfl⟩

theorem Still.trans {u : AsyncClient} (h₁ : Still s t) (h₂ : Still t u) : Still s u :=
  ⟨h₂.events, h₂.writes.trans h₁.writes, h₂.send.trans h₁.send, h₂.pendingTx.trans h₁.pendingTx⟩

/-- A call on the link other than `reconcile` writes nothing. -/
theorem callLink_quiet {call : Session.Call} (hevents : l.events = [])
    (hcall : ∀ txBudget, call ≠ .reconcile txBudget) (h : Session.callLink l call = some l') :
    writes l'.events = [] := by
  have hmoves := callLink_moves hevents h
  generalize coreOf l = c, coreOf l' = c', writes l'.events = frames at hmoves ⊢
  cases hmoves with
  | reconcile txBudget _ _ _ _ => exact absurd rfl (hcall txBudget)
  | still _ _ => rfl
  | read _ _ _ _ => rfl
  | downgrade _ _ => rfl
  | close => rfl

theorem callLink_still {call : Session.Call} (hevents : s.link.events = [])
    (hcall : ∀ txBudget, call ≠ .reconcile txBudget) (h : s.callLink call = some t) :
    Still s t := by
  obtain ⟨link, hlink, rfl⟩ := Option.map_eq_some_iff.mp h
  have hquiet : writes link.events = [] := callLink_quiet hevents hcall hlink
  refine ⟨rfl, ?_, rfl, rfl⟩
  show writes (s.linkEventsRx.send link.events).items = _
  rw [writes_send, hquiet, List.append_nil]

theorem handleCall_still {call : HandleCall} (hevents : s.link.events = [])
    (h : s.handleCall call = some t) : Still s t := by
  cases call with
  | send packet => exact callLink_still hevents (by simp) h
  | sendLingo body =>
    simp only [AsyncClient.handleCall] at h
    split at h
    · exact callLink_still hevents (by simp) h
    · obtain rfl := Option.some.inj h
      exact Still.refl hevents
  | sendFileReserve => exact callLink_still hevents (by simp) h
  | sendFile id fileType setupData source => exact callLink_still hevents (by simp) h

theorem handleCalls_still {calls : List HandleCall}
    (hevents : s.link.events = []) (h : s.handleCalls calls = some t) : Still s t := by
  unfold AsyncClient.handleCalls at h
  induction calls generalizing s with
  | nil =>
    obtain rfl := Option.some.inj h
    exact Still.refl hevents
  | cons call calls ih =>
    obtain ⟨s₁, hfirst, hrest⟩ := Option.bind_eq_some_iff.mp h
    have hstill : Still s s₁ := handleCall_still hevents hfirst
    exact hstill.trans (ih hstill.events hrest)

theorem runSession_still (hevents : s.link.events = [])
    (h : s.runSession callback = .ok t) : Still s t := by
  unfold AsyncClient.runSession at h
  split at h
  · cases h
  · rename_i s₁ hcalls
    split at h
    · cases h
    · obtain rfl := Except.ok.inj h
      exact handleCalls_still hevents hcalls

theorem readFrames_still {fuel : Nat} (hevents : s.link.events = [])
    (h : s.readFrames fuel = some t) : Still s t := by
  induction fuel generalizing s with
  | zero =>
    obtain rfl := Option.some.inj h
    exact Still.refl hevents
  | succ fuel ih =>
    rw [AsyncClient.readFrames] at h
    split at h
    · rename_i packet rxBuf hdecode
      obtain ⟨s₁, hread, hrest⟩ := Option.bind_eq_some_iff.mp h
      have hstill : Still { s with rxBuf } s₁ := callLink_still hevents (by simp) hread
      have hfirst : Still s { s with rxBuf } := ⟨hevents, rfl, rfl, rfl⟩
      exact (hfirst.trans hstill).trans (ih hstill.events hrest)
    · obtain rfl := Option.some.inj h
      exact ⟨hevents, rfl, rfl, rfl⟩

/-! ## One event -/

/-- An event other than a write leaves the frames where they are. -/
theorem handleEvent_still {event : LinkEvent} (hevents : s.link.events = [])
    (hevent : event.write? = none) (h : s.handleEvent callback event = .ok t) : Still s t := by
  cases event with
  | readLegacy body =>
    simp only [AsyncClient.handleEvent] at h
    split at h
    · exact runSession_still hevents h
    · obtain rfl := Except.ok.inj h
      exact Still.refl hevents
  | readCsm payload =>
    simp only [AsyncClient.handleEvent] at h
    split at h
    · exact runSession_still hevents h
    · cases h
  | write packet => cases hevent
  | status linkStatus =>
    simp only [AsyncClient.handleEvent] at h
    split at h
    · have hfirst : Still s { s with status := linkStatus, hadInit := true } :=
        ⟨hevents, rfl, rfl, rfl⟩
      exact hfirst.trans (runSession_still hfirst.events h)
    · split at h
      · cases h
      · obtain rfl := Except.ok.inj h
        exact ⟨hevents, rfl, rfl, rfl⟩
  | fileTransfer id file =>
    simp only [AsyncClient.handleEvent] at h
    split at h
    · have hfirst : Still s { s with files := (onFileEvent s.files id file).1 } :=
        ⟨hevents, rfl, rfl, rfl⟩
      exact hfirst.trans (runSession_still hfirst.events h)
    · obtain rfl := Except.ok.inj h
      exact ⟨hevents, rfl, rfl, rfl⟩

/-- A write hands its frame to the drain and takes the permit. -/
theorem handleEvent_write {packet : PacketOrDetect}
    (h : s.handleEvent callback (.write packet) = .ok t) :
    t.link = s.link ∧ t.linkEventsRx = s.linkEventsRx ∧
      ∃ frame, t.send = s.send.send [⟨s.txCounter, frame⟩] ∧
        t.pendingTx = some ⟨s.txCounter, false⟩ := by
  simp only [AsyncClient.handleEvent] at h
  split at h
  · cases h
  · rename_i frame hframe
    obtain rfl := Except.ok.inj h
    exact ⟨rfl, rfl, frame, rfl, rfl⟩

/-- What is left once an event is handled: the queue behind it, and the frame if it was a write. -/
theorem handleNext_cases
    (hevents : s.link.events = []) (h : s.handleNext callback = .ok (t, produced)) :
    t.link.events = [] ∧ writes t.linkEventsRx.items = writes s.linkEventsRx.queue ∧
      (t.send = s.send ∧ t.pendingTx = s.pendingTx ∨
        (writes s.linkEventsRx.cached.toList).length = 1 ∧
          ∃ frame, t.send = s.send.send [⟨s.txCounter, frame⟩] ∧
            t.pendingTx = some ⟨s.txCounter, false⟩) := by
  unfold AsyncClient.handleNext at h
  cases hcached : s.linkEventsRx.cached with
  | none =>
    simp only [Receiver.take, hcached] at h
    obtain ⟨rfl, -⟩ := Prod.mk.inj (Except.ok.inj h)
    exact ⟨hevents, rfl, .inl ⟨rfl, rfl⟩⟩
  | some event =>
    simp only [Receiver.take, hcached] at h
    obtain ⟨t', hevent, hpure⟩ := bind_eq_ok.mp h
    obtain ⟨rfl, -⟩ := Prod.mk.inj (Except.ok.inj hpure)
    cases hwrite : event.write? with
    | none =>
      have hstill := handleEvent_still (by exact hevents) hwrite hevent
      exact ⟨hstill.events, hstill.writes, .inl ⟨hstill.send, hstill.pendingTx⟩⟩
    | some packet =>
      have hpacket : event = .write packet := by
        cases event <;> simp_all [LinkEvent.write?]
      rw [hpacket] at hevent
      obtain ⟨hlink, hrx, frame, hsend, hpending⟩ := handleEvent_write hevent
      refine ⟨by rw [hlink]; exact hevents, by rw [hrx]; rfl, .inr ⟨?_, frame, hsend, hpending⟩⟩
      simp [writes, hwrite]

/-! ## The link is asked -/

/-- The permit is there unless the frame that took it is known to be with the drain. -/
theorem isTxAllowed_cases (s : AsyncClient) :
    s.isTxAllowed = (s, false) ∧ (∃ v, s.pendingTx = some v ∧ v.cached = false) ∨
      s.isTxAllowed = ({ s with pendingTx := none }, true) ∧
        ∀ v, s.pendingTx = some v → v.cached = true := by
  unfold AsyncClient.isTxAllowed
  cases hpending : s.pendingTx with
  | none =>
    refine .inr ⟨?_, by simp⟩
    dsimp only
    rw [← hpending]
  | some v =>
    cases hcached : v.cached with
    | false => exact .inl ⟨by simp [hcached], v, rfl, hcached⟩
    | true => exact .inr ⟨by simp [hcached], by simp [hcached]⟩

/-- Without a budget nothing is written. -/
theorem reconcile_zero (hevents : l.events = [])
    (h : l.reconcile 0 = some (l', more)) : writes l'.events = [] := by
  obtain ⟨rfl, -⟩ := Prod.mk.inj (Option.some.inj h)
  rw [(drainEvents_quiet l).1, hevents]
  rfl

/-- With a budget of one, a frame is written if the link has one. -/
theorem reconcile_one (hevents : l.events = []) (h : l.reconcile 1 = some (l', more)) :
    ¬ Transmits l ∧ writes l'.events = [] ∨ Transmits l ∧ (writes l'.events).length = 1 := by
  simp only [LinkLayer.reconcile, LinkLayer.transmitLoop, Option.bind_eq_bind,
    Option.bind_eq_some_iff] at h
  obtain ⟨⟨l₁, next⟩, hnext, hrest⟩ := h
  obtain ⟨-, -, -, hquiet, -⟩ := nextTransmit_spec hnext
  have hdrained : writes l₁.events = [] := by
    rw [hquiet, (drainEvents_quiet l).1, hevents]
    rfl
  cases next with
  | none =>
    obtain ⟨rfl, -⟩ := Prod.mk.inj (Option.some.inj hrest)
    refine .inl ⟨?_, hdrained⟩
    rintro ⟨l₂, packet, hpacket⟩
    rw [hnext] at hpacket
    cases hpacket
  | some packet =>
    obtain ⟨rfl, -⟩ := Prod.mk.inj (Option.some.inj hrest)
    refine .inr ⟨⟨l₁, packet, hnext⟩, ?_⟩
    rw [(refreshDataStatus_quiet _).1, LinkLayer.sendEvent, writes_append, hdrained]
    rfl

/-- The link generates a frame when it may and has one, unless it panics. -/
theorem generates_iff (hevents : s.link.events = []) :
    Generates s ↔ s.isTxAllowed.2 = true ∧ Transmits s.link := by
  constructor
  · rintro ⟨link, more, hreconcile, hwrites⟩
    cases hallowed : s.isTxAllowed.2 with
    | false =>
      rw [hallowed] at hreconcile
      exact absurd (reconcile_zero hevents hreconcile) hwrites
    | true =>
      rw [hallowed] at hreconcile
      obtain ⟨-, hnone⟩ | ⟨htransmits, -⟩ := reconcile_one hevents hreconcile
      · exact absurd hnone hwrites
      · exact ⟨rfl, htransmits⟩
  · rintro ⟨hallowed, l', next, hnext⟩
    have hreconcile : s.link.reconcile 1 =
        some ((l'.sendEvent (.write next)).refreshDataStatus, true) := by
      simp [LinkLayer.reconcile, LinkLayer.transmitLoop, hnext]
    refine ⟨_, true, by rw [hallowed]; exact hreconcile, ?_⟩
    obtain ⟨hnot, -⟩ | ⟨-, hone⟩ := reconcile_one hevents hreconcile
    · exact absurd ⟨l', next, hnext⟩ hnot
    · exact List.ne_nil_of_length_eq_add_one hone

/-- What the second part of `reconcile` leaves: the frame that was written joins the channel. -/
theorem reconcileLink_spec (h : s.reconcileLink produced = .ok (t, more)) :
    ∃ link mayHaveMore,
      s.link.reconcile (if s.isTxAllowed.2 then 1 else 0) = some (link, mayHaveMore) ∧
      t.link.events = [] ∧
      writes t.linkEventsRx.items = writes s.linkEventsRx.items ++ writes link.events ∧
      t.send = s.send ∧ t.pendingTx = s.isTxAllowed.1.pendingTx := by
  have hsame : s.isTxAllowed.1.link = s.link ∧
      s.isTxAllowed.1.linkEventsRx = s.linkEventsRx ∧ s.isTxAllowed.1.send = s.send := by
    obtain ⟨hallowed, -⟩ | ⟨hallowed, -⟩ := isTxAllowed_cases s <;>
      rw [hallowed] <;> exact ⟨rfl, rfl, rfl⟩
  obtain ⟨hlink, hrx, hsend⟩ := hsame
  unfold AsyncClient.reconcileLink at h
  dsimp only at h
  rw [hlink] at h
  split at h
  · cases h
  · rename_i link mayHaveMore hreconcile
    refine ⟨link, mayHaveMore, hreconcile, ?_⟩
    split at h
    · cases h
    · obtain ⟨rfl, -⟩ := Prod.mk.inj (Except.ok.inj h)
      refine ⟨rfl, ?_, hsend, rfl⟩
      show writes (s.isTxAllowed.1.linkEventsRx.send link.events).items = _
      rw [writes_send, hrx]

/-! ## The invariant -/

/-- One frame at most is under way; if the drain has it, the permit is gone with it. -/
structure OneUnderWay (s : AsyncClient) : Prop where
  events : s.link.events = []
  atMost : untaken s ≤ 1
  permit : ∀ frame ∈ s.send.items, s.pendingTx = some ⟨frame.counter, false⟩

theorem OneUnderWay.new (h : l.events = []) : OneUnderWay (.new l) :=
  ⟨h, Nat.zero_le 1, nofun⟩

theorem OneUnderWay.still (h : OneUnderWay s) (hstill : Still s t) :
    OneUnderWay t := by
  refine ⟨hstill.events, ?_, ?_⟩
  · unfold untaken
    rw [hstill.writes, hstill.send]
    exact h.atMost
  · rw [hstill.send, hstill.pendingTx]
    exact h.permit

/-- The frames in the slot, in the queue behind it and with the drain. -/
theorem untaken_eq (s : AsyncClient) : untaken s =
    (writes s.linkEventsRx.cached.toList).length + (writes s.linkEventsRx.queue).length
      + s.send.items.length := by
  simp [untaken, Receiver.items]

theorem OneUnderWay.handleNext
    (hs : OneUnderWay s) (h : s.handleNext callback = .ok (t, produced)) : OneUnderWay t := by
  have hatMost := hs.atMost
  rw [untaken_eq] at hatMost
  obtain ⟨hevents, hwrites, ⟨hsend, hpending⟩ | ⟨hone, frame, hsend, hpending⟩⟩ :=
    handleNext_cases hs.events h
  · refine ⟨hevents, ?_, ?_⟩
    · unfold untaken
      rw [hwrites, hsend]
      omega
    · rw [hsend, hpending]
      exact hs.permit
  · -- the frame that was handed over was the one under way
    have hempty : s.send.items = [] := List.eq_nil_of_length_eq_zero (by omega)
    have hitems : t.send.items = [⟨s.txCounter, frame⟩] := by
      rw [hsend, show (s.send.send [⟨s.txCounter, frame⟩]).items = s.send.items ++ _ from
        (List.append_assoc _ _ _).symm, hempty]
      rfl
    refine ⟨hevents, ?_, ?_⟩
    · unfold untaken
      rw [hwrites, hitems]
      simp only [List.length_singleton]
      omega
    · rw [hitems, hpending]
      simp

/-- With the permit free the drain has nothing. -/
theorem OneUnderWay.send_empty (h : OneUnderWay s)
    (hallowed : s.isTxAllowed.2 = true) : s.send.items = [] := by
  obtain ⟨hnot, -⟩ | ⟨-, hcached⟩ := isTxAllowed_cases s
  · rw [hnot] at hallowed
    cases hallowed
  · rw [List.eq_nil_iff_forall_not_mem]
    intro frame hframe
    cases hcached _ (h.permit frame hframe)

theorem OneUnderWay.reconcileLink (hs : OneUnderWay s)
    (hnone : s.isTxAllowed.2 = true → Transmits s.link → writes s.linkEventsRx.items = [])
    (h : s.reconcileLink produced = .ok (t, more)) : OneUnderWay t := by
  obtain ⟨link, mayHaveMore, hreconcile, hevents, hwrites, hsend, hpending⟩ := reconcileLink_spec h
  cases hallowed : s.isTxAllowed.2 with
  | false =>
    rw [hallowed] at hreconcile
    have hquiet := reconcile_zero hs.events hreconcile
    have hsame : s.isTxAllowed.1.pendingTx = s.pendingTx := by
      obtain ⟨heq, -⟩ | ⟨heq, -⟩ := isTxAllowed_cases s
      · rw [heq]
      · rw [heq] at hallowed
        cases hallowed
    refine hs.still ⟨hevents, ?_, hsend, hpending.trans hsame⟩
    rw [hwrites, hquiet, List.append_nil]
  | true =>
    rw [hallowed] at hreconcile
    have hempty := hs.send_empty hallowed
    refine ⟨hevents, ?_, ?_⟩
    · have hatMost := hs.atMost
      unfold untaken at hatMost ⊢
      rw [hwrites, hsend, hempty, List.length_append]
      obtain ⟨-, hquiet⟩ | ⟨htransmits, hone⟩ := reconcile_one hs.events hreconcile
      · rw [hquiet, List.length_nil, List.length_nil]
        omega
      · rw [hnone hallowed htransmits, hone]
        simp
    · rw [hsend, hempty]
      exact nofun

/-- With one frame under way, a step is orderly when none waits. -/
theorem orderly_iff (hs : OneUnderWay s) (action : ClientAction) :
    Orderly s action ↔ NoneWaits s action := by
  refine forall₃_congr fun callback s₁ produced => ?_
  refine forall₂_congr fun haction hnext => ?_
  obtain ⟨hevents, hwrites, -⟩ := handleNext_cases hs.events hnext
  rw [generates_iff hevents, and_imp]
  refine forall₂_congr fun hallowed htransmits => ?_
  rw [← hwrites, untaken, (hs.handleNext hnext).send_empty hallowed]
  exact List.length_eq_zero_iff

theorem OneUnderWay.step {action : ClientAction} (hs : OneUnderWay s)
    (hnone : NoneWaits s action) (h : clientStep s action = some t) : OneUnderWay t := by
  cases action with
  | readFrameBuf buf =>
    have hfirst : Still s { s with rxBuf := s.rxBuf ++ buf } := ⟨hs.events, rfl, rfl, rfl⟩
    exact hs.still (hfirst.trans (readFrames_still hfirst.events h))
  | handle call => exact hs.still (handleCall_still hs.events h)
  | downgrade => exact hs.still (callLink_still hs.events (by simp) h)
  | advance nanos => exact hs.still (callLink_still hs.events (by simp) h)
  | reconcile callback =>
    simp only [clientStep] at h
    split at h
    · rename_i u more hreconcile
      obtain rfl := Option.some.inj h
      obtain ⟨⟨s₁, produced⟩, hnext, hlink⟩ := bind_eq_ok.mp hreconcile
      refine (hs.handleNext hnext).reconcileLink ?_ hlink
      intro hallowed htransmits
      rw [(handleNext_cases hs.events hnext).2.1]
      exact hnone callback s₁ produced rfl hnext hallowed htransmits
    · cases h
  | sleepLinkEvents =>
    obtain rfl := Option.some.inj h
    refine hs.still ⟨hs.events, ?_, rfl, rfl⟩
    show writes s.linkEventsRx.sleep.items = _
    rw [items_sleep]
  | sleepPendingTx =>
    obtain rfl := Option.some.inj h
    unfold AsyncClient.sleepPendingTx
    split
    · rename_i v hpending
      split
      · exact hs
      · rename_i hnot
        -- the drain has none of the frames that the permit could be gone with
        have hempty : s.send.items = [] := by
          rw [List.eq_nil_iff_forall_not_mem]
          intro frame hframe
          have hcounter : v.counter = frame.counter := by
            rw [Option.some.inj (hpending.symm.trans (hs.permit frame hframe))]
          exact hnot (List.any_eq_true.mpr ⟨frame, hframe, by simp [hcounter]⟩)
        refine ⟨hs.events, hs.atMost, ?_⟩
        show ∀ frame ∈ s.send.items, _
        rw [hempty]
        exact nofun
    · exact hs
  | drainSleep =>
    obtain rfl := Option.some.inj h
    have hitems : s.drainSleep.send.items = s.send.items := items_sleep s.send
    refine ⟨hs.events, ?_, ?_⟩
    · show _ + s.drainSleep.send.items.length ≤ 1
      rw [hitems]
      exact hs.atMost
    · rw [hitems]
      exact hs.permit
  | drainTake =>
    obtain rfl := Option.some.inj h
    have hitems : s.drainTake.send.items = s.send.queue := rfl
    have hsub : s.send.queue.Sublist s.send.items := List.sublist_append_right _ _
    refine ⟨hs.events, ?_, ?_⟩
    · show _ + s.drainTake.send.items.length ≤ 1
      rw [hitems]
      exact (Nat.add_le_add_left hsub.length_le _).trans hs.atMost
    · rw [hitems]
      exact fun frame hframe => hs.permit frame (hsub.subset hframe)

/-! ## Runs -/

/-- A client that was just made, with a link that was just made. -/
def freshClient (server : Bool) (clock : Nat) (lspNegotiator : LSPNegotiator) : AsyncClient :=
  .new (.withClockAndLspNegotiator server clock lspNegotiator)

/-- **The permit holds exactly as long as no frame waits in the channel behind the handled event
when the link is asked for the next one.** -/
theorem permit_iff (server : Bool) (clock : Nat) (lspNegotiator : LSPNegotiator)
    (actions : List ClientAction) :
    PermitHolds (freshClient server clock lspNegotiator) actions ↔
      AllSteps clientStep NoneWaits (freshClient server clock lspNegotiator) actions := by
  have hnew : OneUnderWay (freshClient server clock lspNegotiator) := .new rfl
  have hiff : AllSteps clientStep Orderly (freshClient server clock lspNegotiator) actions ↔
      AllSteps clientStep NoneWaits (freshClient server clock lspNegotiator) actions :=
    allSteps_iff_of_invariant OneUnderWay (fun s action hs => orderly_iff hs action)
      (fun s action t hs hnone h => hs.step hnone h) hnew
  constructor
  · exact fun hholds => hiff.mp hholds.2
  · refine fun hnone => ⟨?_, hiff.mpr hnone⟩
    rintro front t ⟨back, rfl⟩ ht
    have hfront := (allSteps_append.mp hnone).1
    have hlast : OneUnderWay t := run_invariant_of_allSteps OneUnderWay NoneWaits
      (fun s action u hs hnone h => hs.step hnone h) hnew hfront ht
    exact (Nat.le_add_left _ _).trans hlast.atMost

/-- An accessory that reads the DETECT of its host before its own has left the channel. -/
def quickHost : List ClientAction :=
  [.reconcile {}, .readFrameBuf [0xFF, 0x55, 0x02, 0x00, 0xEE, 0x10], .reconcile {},
    .sleepLinkEvents, .reconcile {}, .sleepLinkEvents, .reconcile {}, .sleepLinkEvents,
    .reconcile {}]

/-- The SYN is generated before the DETECT is taken, and both are handed to the drain. -/
theorem two_frames_handed :
    ¬ ∀ (server : Bool) (clock : Nat) (lspNegotiator : LSPNegotiator)
      (actions : List ClientAction),
      PermitHolds (freshClient server clock lspNegotiator) actions := by
  intro h
  obtain ⟨hhanded, -⟩ := h false 0 (SimpleLSPNegotiator .bluetooth) quickHost
  have htwo := hhanded quickHost _ List.prefix_rfl rfl
  exact absurd htwo (by decide)

end Catplay.Analysis.Client.Permit
