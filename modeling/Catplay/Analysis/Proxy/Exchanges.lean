import Catplay.Model.Proxy.CarManager

/-!
# The exchanges with the phone

A `ChangeModes` of the car is in flight in the arbiter from when it is handed on to the phone. It is
taken out again when the phone answers with a response that can be read, and when the phone goes. So
the two queues stay the same if every command is answered so (`closed_iff_answered`).
-/

set_option autoImplicit false

namespace Catplay.Analysis.Proxy

open Catplay.Model.Proxy Catplay.Model.Proxy.CarManager Catplay.Model.Modes Catplay.Model.Rtsp
open Catplay.Library.Run

/-! ## One reconcile -/

/-- The part of `reconcile` that empties the slots. -/
def dispatch (plists : Plists) (answers : Answers) (self : CarManager) : CarManager :=
  ((self.takeRecord.takeScreen.takeProxied plists).takeOp answers).takeCommand plists answers

/-- The part that follows the modes. -/
def settle (answers : Answers) (self : CarManager) : CarManager :=
  let self := self.flushModes.initialSteal.flushModes
  if answers.altReconciled then self.push .altScreenTeardown else self

theorem reconcile_ok {plists : Plists} {answers : Answers} {self self' : CarManager}
    (h : self.reconcile plists answers = .ok self') :
    self' = settle answers (dispatch plists answers self) := by
  unfold reconcile at h
  dsimp only at h
  split at h
  · cases h
  · split at h
    · cases h
    · split at h
      · cases h
      · exact (Except.ok.inj h).symm

/-- **A round** fills a slot and reconciles. -/
theorem round_some {plists : Plists} {self self' : CarManager} {event : Wake × Answers}
    (h : self.round plists event = some self') :
    ∃ filled, self.startTask.fill event.1 = some filled ∧
      self' = settle event.2 (dispatch plists event.2 filled) := by
  obtain ⟨filled, hfilled, hreconcile⟩ := Option.bind_eq_some_iff.mp h
  refine ⟨filled, hfilled, ?_⟩
  cases hresult : filled.reconcile plists event.2 with
  | error e =>
    rw [hresult] at hreconcile
    cases hreconcile
  | ok result =>
    rw [hresult] at hreconcile
    obtain rfl := Option.some.inj hreconcile
    exact reconcile_ok hresult

/-! ## What is in flight and what waits -/

def changeModes? : Command → Option ChangeModes
  | .changeModes modes => some modes
  | _ => none

/-- The commands waiting in a peer, the oldest one first. -/
def IphonePeer.commands (peer : IphonePeer) : List Command :=
  peer.ready.toList.map (·.command) ++ peer.carToIphoneProxy.map (·.command)

/-- **The `ChangeModes` commands still waiting in `car_to_iphone_proxy`.** -/
def waiting (self : CarManager) : List ChangeModes :=
  (self.iphonePeer.toList.flatMap IphonePeer.commands).filterMap changeModes?

/-- **Every exchange is closed or waits.** -/
structure Closed (m : CarManager) : Prop where
  /-- What is in flight in the arbiter is what waits, in the same order. -/
  inflight : m.modes.inflightPeerChangeModes = waiting m
  /-- Once none waits no report stays deferred. -/
  settled : waiting m = [] → m.modes.pendingPeerModesChanged = []
  /-- A response to the oldest command is matched to its own request. -/
  own : ∀ peer task rest modes, m.iphonePeer = some peer →
    peer.carToIphoneProxy = task :: rest → task.command = .changeModes modes →
      m.modes.inflightPeerChangeModes.head? = some modes

/-- The reports the arbiter defers wait for an exchange. -/
def Deferring (arbiter : ModesArbiter) : Prop :=
  arbiter.inflightPeerChangeModes = [] → arbiter.pendingPeerModesChanged = []

/-- Nothing is left in the slots that a reconcile empties. -/
structure Emptied (m : CarManager) : Prop where
  proxyRx : m.proxyRx = none
  cmdNext : m.cmdNext = none
  ready : ∀ peer, m.iphonePeer = some peer → peer.ready = none

/-- `m'` has the exchanges of `m`. -/
structure SameExchanges (m m' : CarManager) : Prop where
  inflight : m'.modes.inflightPeerChangeModes = m.modes.inflightPeerChangeModes
  pending : m'.modes.pendingPeerModesChanged = m.modes.pendingPeerModesChanged
  iphonePeer : m'.iphonePeer = m.iphonePeer
  proxyRx : m'.proxyRx = m.proxyRx
  cmdNext : m'.cmdNext = m.cmdNext

namespace SameExchanges

theorem refl (self : CarManager) : SameExchanges self self := ⟨rfl, rfl, rfl, rfl, rfl⟩

theorem trans {a b c : CarManager} (h : SameExchanges a b) (h' : SameExchanges b c) :
    SameExchanges a c :=
  ⟨h'.inflight.trans h.inflight, h'.pending.trans h.pending, h'.iphonePeer.trans h.iphonePeer,
    h'.proxyRx.trans h.proxyRx, h'.cmdNext.trans h.cmdNext⟩

end SameExchanges

section Operations

variable (self : CarManager)

theorem same_push (task : TxTask) : SameExchanges self (self.push task) := ⟨rfl, rfl, rfl, rfl, rfl⟩

theorem same_finish (cmd : CommandPending) : SameExchanges self (self.finish cmd) :=
  ⟨rfl, rfl, rfl, rfl, rfl⟩

theorem same_takeRecord : SameExchanges self self.takeRecord := by
  unfold takeRecord
  split
  · exact .refl self
  · exact ⟨rfl, rfl, rfl, rfl, rfl⟩

theorem same_takeScreen : SameExchanges self self.takeScreen := by
  unfold takeScreen
  split
  · exact ⟨rfl, rfl, rfl, rfl, rfl⟩
  · exact .refl self

theorem same_flushDirty : SameExchanges self self.flushDirty := by
  unfold flushDirty
  split
  · exact ⟨rfl, rfl, rfl, rfl, rfl⟩
  · exact .refl self

theorem same_flushScreen : SameExchanges self self.flushScreen := by
  unfold flushScreen
  dsimp only
  split
  · exact ⟨rfl, rfl, rfl, rfl, rfl⟩
  · split
    · exact ⟨rfl, rfl, rfl, rfl, rfl⟩
    · exact .refl self

theorem same_flushModes : SameExchanges self self.flushModes :=
  (same_flushDirty self).trans (same_flushScreen self.flushDirty)

theorem trySteal_queues (arbiter : ModesArbiter) (p : ResourceTransferPriority) :
    (arbiter.trySteal p).inflightPeerChangeModes = arbiter.inflightPeerChangeModes ∧
      (arbiter.trySteal p).pendingPeerModesChanged = arbiter.pendingPeerModesChanged := by
  unfold ModesArbiter.trySteal
  split
  · exact ⟨rfl, rfl⟩
  · split
    · dsimp only
      split
      · exact ⟨rfl, rfl⟩
      · exact ⟨rfl, rfl⟩
    · exact ⟨rfl, rfl⟩

theorem same_initialSteal : SameExchanges self self.initialSteal := by
  unfold initialSteal
  split
  · obtain ⟨hinflight, hpending⟩ := trySteal_queues self.modes .niceToHave
    exact ⟨hinflight, hpending, rfl, rfl, rfl⟩
  · exact .refl self

theorem same_settle (answers : Answers) : SameExchanges self (settle answers self) := by
  have hflushed := (same_flushModes self).trans
    ((same_initialSteal _).trans (same_flushModes _))
  unfold settle
  dsimp only
  split
  · exact hflushed.trans (same_push _ _)
  · exact hflushed

theorem same_startTask : SameExchanges self self.startTask := by
  unfold startTask
  split
  · exact ⟨rfl, rfl, rfl, rfl, rfl⟩
  · exact .refl self

end Operations

/-! ## The arbiter's reports -/

section Arbiter

variable {arbiter : ModesArbiter}

theorem drainPending_queues (reports : List ModesChanged) :
    (arbiter.drainPending reports).inflightPeerChangeModes = arbiter.inflightPeerChangeModes ∧
      (arbiter.drainPending reports).pendingPeerModesChanged = [] := by
  induction reports generalizing arbiter with
  | nil => exact ⟨rfl, rfl⟩
  | cons report reports ih => exact ih

/-- What `drain_pending_peer_modes_changed_if_idle` leaves. -/
theorem drain_queues (arbiter : ModesArbiter) :
    arbiter.drainPendingPeerModesChangedIfIdle.inflightPeerChangeModes =
        arbiter.inflightPeerChangeModes ∧
      Deferring arbiter.drainPendingPeerModesChangedIfIdle := by
  unfold ModesArbiter.drainPendingPeerModesChangedIfIdle
  split
  · obtain ⟨hinflight, hpending⟩ := @drainPending_queues arbiter arbiter.pendingPeerModesChanged
    exact ⟨hinflight, fun _ => hpending⟩
  · rename_i hbusy
    refine ⟨rfl, fun hidle => absurd ?_ hbusy⟩
    rw [hidle]
    rfl

/-- **The end of an exchange** takes the oldest request out. -/
theorem onPeerChangeModesEnd_queues (h : Deferring arbiter) (resp : ChangeModesResponse) :
    (arbiter.onPeerChangeModesEnd resp).inflightPeerChangeModes =
        arbiter.inflightPeerChangeModes.tail ∧
      Deferring (arbiter.onPeerChangeModesEnd resp) := by
  unfold ModesArbiter.onPeerChangeModesEnd
  cases hinflight : arbiter.inflightPeerChangeModes with
  | nil =>
    dsimp only
    exact ⟨hinflight, h⟩
  | cons request inflight =>
    dsimp only
    split
    · exact drain_queues { arbiter with inflightPeerChangeModes := inflight }
    · exact drain_queues { arbiter with
        inflightPeerChangeModes := inflight
        acceptedPeerChangeModes := arbiter.acceptedPeerChangeModes ++ [request] }

theorem onPeerModesChanged_queues (h : Deferring arbiter) (report : ModesChanged) :
    (arbiter.onPeerModesChanged report).inflightPeerChangeModes =
        arbiter.inflightPeerChangeModes ∧
      Deferring (arbiter.onPeerModesChanged report) := by
  unfold ModesArbiter.onPeerModesChanged
  dsimp only
  split
  · exact ⟨rfl, h⟩
  · rename_i hbusy
    refine ⟨rfl, fun hidle => absurd ?_ hbusy⟩
    show List.isEmpty arbiter.inflightPeerChangeModes = true
    rw [show arbiter.inflightPeerChangeModes = [] from hidle]
    rfl

end Arbiter

/-! ## The steps of a round -/

/-- What holds of the manager between two rounds. -/
structure Tracked (m : CarManager) : Prop where
  emptied : Emptied m
  deferring : Deferring m.modes

theorem SameExchanges.waiting {a b : CarManager} (h : SameExchanges a b) :
    Proxy.waiting b = Proxy.waiting a := by
  unfold Proxy.waiting
  rw [h.iphonePeer]

theorem SameExchanges.tracked {a b : CarManager} (h : SameExchanges a b) (ha : Tracked a) :
    Tracked b where
  emptied :=
    ⟨h.proxyRx.trans ha.emptied.proxyRx, h.cmdNext.trans ha.emptied.cmdNext,
      fun peer hpeer => ha.emptied.ready peer (h.iphonePeer.symm.trans hpeer)⟩
  deferring := by
    intro hidle
    rw [h.inflight] at hidle
    rw [h.pending]
    exact ha.deferring hidle

/-- The two queues agree. -/
def Agree (m : CarManager) : Prop := m.modes.inflightPeerChangeModes = waiting m

theorem SameExchanges.agree {a b : CarManager} (h : SameExchanges a b) : Agree b ↔ Agree a := by
  unfold Agree
  rw [h.inflight, h.waiting]

/-- That the queues agree is all there is to it. -/
theorem closed_iff_agree {m : CarManager} (h : Tracked m) : Closed m ↔ Agree m := by
  constructor
  · exact fun hclosed => hclosed.inflight
  · intro hagree
    refine ⟨hagree, fun hnone => h.deferring (hagree.trans hnone), ?_⟩
    intro peer task rest modes hpeer hqueue hcommand
    rw [hagree]
    unfold waiting IphonePeer.commands
    rw [hpeer, Option.toList_some, List.flatMap_singleton, h.emptied.ready peer hpeer, hqueue]
    simp [changeModes?, hcommand]

section TakeProxied

variable {plists : Plists} {self : CarManager}

theorem takeProxied_of_none (h : ∀ peer, self.iphonePeer = some peer → peer.ready = none) :
    self.takeProxied plists = self := by
  unfold takeProxied
  cases hpeer : self.iphonePeer with
  | none => rfl
  | some peer =>
    simp only [h peer hpeer]

/-- The arbiter behind a command that is over. -/
def afterExchange (plists : Plists) (arbiter : ModesArbiter) (task : CarToIphoneCommandTask)
    (outcome : Option RtspResponse) : ModesArbiter :=
  match changeModes? task.command, outcome.bind fun resp => plists.decode resp.payload with
  | some _, some p => arbiter.onPeerChangeModesEnd p
  | _, _ => arbiter

/-- **A command is over**: the arbiter hears of it if it is a `ChangeModes` that has been answered
with a response that can be read. -/
theorem takeProxied_some {task : CarToIphoneCommandTask} {rest : List CarToIphoneCommandTask}
    {outcome : Option RtspResponse}
    (h : self.iphonePeer = some ⟨some (task.finish outcome), rest⟩) :
    ∃ finished, self.takeProxied plists =
      { self with
        iphonePeer := some ⟨none, rest⟩
        modes := afterExchange plists self.modes task outcome
        finished } := by
  unfold takeProxied
  simp only [h]
  cases outcome with
  | none =>
    have hmodes : afterExchange plists self.modes task none = self.modes := by
      unfold afterExchange
      cases changeModes? task.command <;> rfl
    rw [hmodes]
    split
    · exact ⟨_, rfl⟩
    · refine ⟨self.finished ++ [task.cmd], ?_⟩
      unfold CarToIphoneCommandTask.finish
      simp only [Option.bind_none]
      split
      · rename_i heq
        cases heq
      · rfl
  | some resp =>
    have hcomplete : (task.cmd.respond resp).isComplete = true := by
      unfold CommandPending.respond CommandPending.isComplete
      cases hresponse : task.cmd.response with
      | none => rfl
      | some old =>
        dsimp only
        rw [hresponse]
        rfl
    unfold CarToIphoneCommandTask.finish
    simp only [hcomplete, not_true_eq_false, if_false, Option.bind_some]
    refine ⟨self.finished ++ [task.cmd.respond resp], ?_⟩
    unfold afterExchange
    simp only [Option.bind_some]
    cases hcommand : task.command with
    | changeModes modes =>
      cases hread : plists.decode resp.payload with
      | none => rfl
      | some p => rfl
    | _ => rfl

end TakeProxied

theorem command_respondOk (cmd : CommandPending) : cmd.respondOk.command = cmd.command := by
  unfold CommandPending.respondOk CommandPending.respondStatus CommandPending.respond
  split
  · rfl
  · rfl

section Steps

variable {plists : Plists} {answers : Answers} {self : CarManager}

theorem waiting_none (h : self.iphonePeer = none) : waiting self = [] := by
  unfold waiting
  rw [h]
  rfl

theorem waiting_peer {queue : List CarToIphoneCommandTask}
    (h : self.iphonePeer = some ⟨none, queue⟩) :
    waiting self = queue.filterMap fun task => changeModes? task.command := by
  unfold waiting IphonePeer.commands
  rw [h, Option.toList_some, List.flatMap_singleton]
  exact List.filterMap_map

/-- **A message of the phone** keeps the queues in agreement, unless it is that of a new phone while
an exchange waits. -/
theorem dispatchTxOp_agree (h : Tracked self) (hagree : Agree self) (op : TxAdapterOp) :
    Tracked (self.dispatchTxOp answers op) ∧
      (Agree (self.dispatchTxOp answers op) ↔ op = .iphoneConnected → waiting self = []) := by
  have hsame : ∀ self', SameExchanges self self' → op ≠ .iphoneConnected →
      Tracked self' ∧ (Agree self' ↔ op = .iphoneConnected → waiting self = []) :=
    fun self' hs hne => ⟨hs.tracked h, by rw [hs.agree]; simp [hagree, hne]⟩
  cases op with
  | iphoneConnected =>
    have hpeer : (self.dispatchTxOp answers .iphoneConnected).iphonePeer = some ⟨none, []⟩ := rfl
    refine ⟨⟨⟨h.emptied.proxyRx, h.emptied.cmdNext, ?_⟩, h.deferring⟩, ?_⟩
    · intro peer hsome
      obtain rfl := Option.some.inj (hpeer.symm.trans hsome)
      rfl
    · unfold Agree
      rw [waiting_peer hpeer]
      show self.modes.inflightPeerChangeModes = [] ↔ _
      rw [hagree]
      simp
  | iphoneDisconnected =>
    have hgone : ∀ self', self'.iphonePeer = none → self'.modes.inflightPeerChangeModes = [] →
        self'.modes.pendingPeerModesChanged = [] → self'.proxyRx = self.proxyRx →
          self'.cmdNext = self.cmdNext →
            Tracked self' ∧ (Agree self' ↔ TxAdapterOp.iphoneDisconnected = .iphoneConnected →
              waiting self = []) := by
      intro self' hpeer hinflight hpending hop hcmd
      refine ⟨⟨⟨hop.trans h.emptied.proxyRx, hcmd.trans h.emptied.cmdNext, ?_⟩, fun _ => hpending⟩,
        ?_⟩
      · intro peer hsome
        rw [hpeer] at hsome
        cases hsome
      · unfold Agree
        rw [hinflight, waiting_none hpeer]
        simp
    show Tracked (self.onPeerDisconnect answers) ∧ (Agree (self.onPeerDisconnect answers) ↔ _)
    unfold onPeerDisconnect
    cases hpeer : self.iphonePeer with
    | none =>
      have hinflight : self.modes.inflightPeerChangeModes = [] :=
        Eq.trans hagree (waiting_none hpeer)
      dsimp only
      split
      · exact hgone _ hpeer hinflight (h.deferring hinflight) rfl rfl
      · exact hgone _ hpeer hinflight (h.deferring hinflight) rfl rfl
    | some peer =>
      dsimp only
      split
      · split
        · exact hgone _ rfl rfl rfl rfl rfl
        · exact hgone _ rfl rfl rfl rfl rfl
      · split
        · exact hgone _ rfl rfl rfl rfl rfl
        · exact hgone _ rfl rfl rfl rfl rfl
  | screenChannel => exact hsame _ (.refl self) (by simp)
  | altScreenChannel =>
    refine hsame _ ?_ (by simp)
    show SameExchanges self (TxTask.altScreenSetup |> (if answers.altReplaced = true then
      self.push .altScreenTeardown else self).push)
    split
    · exact (same_push self _).trans (same_push _ _)
    · exact same_push self _
  | negotiateFeatures => exact hsame _ (.refl self) (by simp)
  | modes modes =>
    obtain ⟨hinflight, hdeferring⟩ := onPeerModesChanged_queues h.deferring modes.serialize
    refine ⟨⟨⟨h.emptied.proxyRx, h.emptied.cmdNext, h.emptied.ready⟩, hdeferring⟩, ?_⟩
    have hkept : Agree (self.dispatchTxOp answers (.modes modes)) :=
      Eq.trans hinflight hagree
    simp [hkept]
  | command command =>
    refine hsame _ ?_ (by simp)
    show SameExchanges self (self.onIphoneCommand command)
    unfold onIphoneCommand
    split
    · exact same_push self _
    · exact .refl self
  | patchInfo => exact hsame _ (.refl self) (by simp)
  | setupAudio => exact hsame _ (same_push self _) (by simp)

/-- **A command of the car** comes to both queues, or to neither. -/
theorem dispatchCarCommand_agree (h : Tracked self) (hagree : Agree self) (cmd : CommandPending) :
    Tracked (self.dispatchCarCommand plists answers cmd) ∧
      Agree (self.dispatchCarCommand plists answers cmd) := by
  have hsame : ∀ self', SameExchanges self self' → Tracked self' ∧ Agree self' :=
    fun self' hs => ⟨hs.tracked h, hs.agree.mpr hagree⟩
  unfold dispatchCarCommand
  cases hpeer : self.iphonePeer with
  | none =>
    dsimp only
    unfold onCarCommandUnconnected
    split
    · exact hsame _ ⟨rfl, rfl, rfl, rfl, rfl⟩
    · exact hsame _ ⟨rfl, rfl, rfl, rfl, rfl⟩
    · obtain ⟨hinflight, hpending⟩ := trySteal_queues self.modes .userInitiated
      exact hsame _ ⟨hinflight, hpending, rfl, rfl, rfl⟩
    · exact hsame _ (same_finish self _)
  | some peer =>
    have hready := h.emptied.ready peer hpeer
    obtain ⟨ready, queue⟩ := peer
    dsimp only at hready
    subst hready
    have hwaiting := waiting_peer hpeer
    -- a command that is handed on, with the modes it leaves
    have hpush : ∀ (self' : CarManager) (task : CarToIphoneCommandTask),
        self'.modes.inflightPeerChangeModes =
          self.modes.inflightPeerChangeModes ++ (changeModes? task.command).toList →
        self'.modes.pendingPeerModesChanged = self.modes.pendingPeerModesChanged →
        self'.iphonePeer = some ⟨none, queue ++ [task]⟩ → self'.proxyRx = self.proxyRx →
        self'.cmdNext = self.cmdNext → Tracked self' ∧ Agree self' := by
      intro self' task hinflight hpending hpeer' hop hcmd
      refine ⟨⟨⟨hop.trans h.emptied.proxyRx, hcmd.trans h.emptied.cmdNext, ?_⟩, ?_⟩, ?_⟩
      · intro peer hsome
        obtain rfl := Option.some.inj (hpeer'.symm.trans hsome)
        rfl
      · intro hidle
        rw [hinflight] at hidle
        rw [hpending]
        exact h.deferring (List.append_eq_nil_iff.mp hidle).1
      · unfold Agree
        rw [hinflight, waiting_peer hpeer', List.filterMap_append, ← hwaiting, ← hagree]
        congr 1
    obtain ⟨command, response⟩ := cmd
    dsimp only
    unfold onCarCommandConnected
    cases command with
    | hidSendReport =>
      dsimp only
      split
      · exact hsame _ (same_finish self _)
      · refine hpush _ ⟨_, (CommandPending.respondOk ⟨.hidSendReport, response⟩).command⟩ ?_ rfl rfl
          rfl rfl
        rw [command_respondOk]
        exact (List.append_nil _).symm
    | changeModes modes => exact hpush _ ⟨_, .changeModes modes⟩ rfl rfl rfl rfl rfl
    | forceKeyFrame => exact hpush _ ⟨_, .forceKeyFrame⟩ (List.append_nil _).symm rfl rfl rfl rfl
    | requestSiri => exact hpush _ ⟨_, .requestSiri⟩ (List.append_nil _).symm rfl rfl rfl rfl
    | requestUI => exact hpush _ ⟨_, .requestUI⟩ (List.append_nil _).symm rfl rfl rfl rfl
    | setNightMode nightMode =>
      exact hpush _ ⟨_, .setNightMode nightMode⟩ (List.append_nil _).symm rfl rfl rfl rfl
    | setLimitedUI => exact hpush _ ⟨_, .setLimitedUI⟩ (List.append_nil _).symm rfl rfl rfl rfl
    | changeMapZoomLevel =>
      exact hpush _ ⟨_, .changeMapZoomLevel⟩ (List.append_nil _).symm rfl rfl rfl rfl
    | duckAudio => exact hsame _ (same_finish self _)
    | unduckAudio => exact hsame _ (same_finish self _)
    | disableBluetooth => exact hsame _ (same_finish self _)
    | modesChanged => exact hsame _ (same_finish self _)
    | hidSetInputMode => exact hsame _ (same_finish self _)
    | iapSendMessage => exact hsame _ (same_finish self _)

end Steps

/-! ## A round -/

/-- **When the phone closes an exchange**: a `ChangeModes` that is over has been answered with a
response that can be read. And no new phone comes while an exchange waits. -/
def Answered (plists : Plists) (m : CarManager) (event : Wake × Answers) : Prop :=
  match event.1 with
  | .proxied outcome =>
    ∀ peer task rest modes, m.iphonePeer = some peer → peer.carToIphoneProxy = task :: rest →
      task.command = .changeModes modes →
        (outcome.bind fun resp => plists.decode resp.payload).isSome
  | .proxyOp .iphoneConnected => waiting m = []
  | _ => True

section Round

variable {plists : Plists} {answers : Answers} {self : CarManager}

/-- Nothing to take: nothing happens to the exchanges. -/
theorem same_dispatch (h : Emptied self) : SameExchanges self (dispatch plists answers self) := by
  have hfront := (same_takeRecord self).trans (same_takeScreen self.takeRecord)
  have hready : ∀ peer, self.takeRecord.takeScreen.iphonePeer = some peer → peer.ready = none :=
    fun peer hpeer => h.ready peer (hfront.iphonePeer.symm.trans hpeer)
  have hop : self.takeRecord.takeScreen.proxyRx = none := hfront.proxyRx.trans h.proxyRx
  have hcmd : self.takeRecord.takeScreen.cmdNext = none := hfront.cmdNext.trans h.cmdNext
  have hdispatch : dispatch plists answers self = self.takeRecord.takeScreen := by
    unfold dispatch
    rw [takeProxied_of_none hready, takeOp, hop]
    dsimp only
    rw [takeCommand, hcmd]
  rw [hdispatch]
  exact hfront

/-- What is in a slot comes before all else, whatever slot it is. -/
theorem same_front (self : CarManager) : SameExchanges self self.takeRecord.takeScreen :=
  (same_takeRecord self).trans (same_takeScreen self.takeRecord)

/-- A message of the phone is all there is to take. -/
theorem dispatch_op (h : Tracked self) (hagree : Agree self) (op : TxAdapterOp) :
    Tracked (dispatch plists answers { self with proxyRx := some op }) ∧
      (Agree (dispatch plists answers { self with proxyRx := some op }) ↔
        op = .iphoneConnected → waiting self = []) := by
  have hfront := same_front { self with proxyRx := some op }
  generalize hm : ({ self with proxyRx := some op } : CarManager).takeRecord.takeScreen = m at hfront
  have hready : ∀ peer, m.iphonePeer = some peer → peer.ready = none :=
    fun peer hpeer => h.emptied.ready peer (hfront.iphonePeer.symm.trans hpeer)
  have hsame : SameExchanges self { m with proxyRx := none } :=
    ⟨hfront.inflight, hfront.pending, hfront.iphonePeer, h.emptied.proxyRx.symm, hfront.cmdNext⟩
  obtain ⟨htracked, hiff⟩ := @dispatchTxOp_agree answers _ (hsame.tracked h)
    (hsame.agree.mpr hagree) op
  have hdispatch : dispatch plists answers { self with proxyRx := some op } =
      CarManager.dispatchTxOp answers { m with proxyRx := none } op := by
    unfold dispatch
    rw [hm, takeProxied_of_none hready, takeOp, hfront.proxyRx]
    dsimp only
    rw [takeCommand, htracked.emptied.cmdNext]
  rw [hdispatch, ← hsame.waiting]
  exact ⟨htracked, hiff⟩

/-- A command of the car is all there is to take. -/
theorem dispatch_command (h : Tracked self) (hagree : Agree self) (cmd : CommandPending) :
    Tracked (dispatch plists answers { self with cmdNext := some cmd }) ∧
      Agree (dispatch plists answers { self with cmdNext := some cmd }) := by
  have hfront := same_front { self with cmdNext := some cmd }
  generalize hm : ({ self with cmdNext := some cmd } : CarManager).takeRecord.takeScreen = m
    at hfront
  have hready : ∀ peer, m.iphonePeer = some peer → peer.ready = none :=
    fun peer hpeer => h.emptied.ready peer (hfront.iphonePeer.symm.trans hpeer)
  have hop : m.proxyRx = none := hfront.proxyRx.trans h.emptied.proxyRx
  have hsame : SameExchanges self { m with cmdNext := none } :=
    ⟨hfront.inflight, hfront.pending, hfront.iphonePeer, hfront.proxyRx, h.emptied.cmdNext.symm⟩
  have htakeOp : m.takeOp answers = m := by rw [takeOp, hop]
  have hcmd : m.cmdNext = some cmd := hfront.cmdNext
  have hdispatch : dispatch plists answers { self with cmdNext := some cmd } =
      CarManager.dispatchCarCommand plists answers { m with cmdNext := none } cmd := by
    unfold dispatch
    rw [hm, takeProxied_of_none hready, htakeOp, takeCommand, hcmd]
  rw [hdispatch]
  exact dispatchCarCommand_agree (hsame.tracked h) (hsame.agree.mpr hagree) cmd

/-- **A command that is over** leaves the queues in agreement if and only if it is no `ChangeModes`
or has been answered. -/
theorem dispatch_proxied (h : Tracked self) (hagree : Agree self) {task : CarToIphoneCommandTask}
    {rest : List CarToIphoneCommandTask} (outcome : Option RtspResponse)
    (hpeer : self.iphonePeer = some ⟨none, task :: rest⟩) :
    Tracked (dispatch plists answers
        { self with iphonePeer := some ⟨some (task.finish outcome), rest⟩ }) ∧
      (Agree (dispatch plists answers
          { self with iphonePeer := some ⟨some (task.finish outcome), rest⟩ }) ↔
        ∀ modes, task.command = .changeModes modes →
          (outcome.bind fun resp => plists.decode resp.payload).isSome) := by
  have hfront := same_front { self with iphonePeer := some ⟨some (task.finish outcome), rest⟩ }
  generalize hm : ({ self with
    iphonePeer := some ⟨some (task.finish outcome), rest⟩ } : CarManager).takeRecord.takeScreen = m
      at hfront
  obtain ⟨finished, htake⟩ := @takeProxied_some plists m task rest outcome hfront.iphonePeer
  have hop : m.proxyRx = none := hfront.proxyRx.trans h.emptied.proxyRx
  have hcmd : m.cmdNext = none := hfront.cmdNext.trans h.emptied.cmdNext
  have hdispatch : dispatch plists answers
      { self with iphonePeer := some ⟨some (task.finish outcome), rest⟩ } =
        { m with
          iphonePeer := some ⟨none, rest⟩
          modes := afterExchange plists m.modes task outcome
          finished } := by
    unfold dispatch
    rw [hm, htake, takeOp]
    dsimp only
    rw [hop]
    dsimp only
    rw [takeCommand]
    dsimp only
    rw [hcmd]
  have hdeferring : Deferring m.modes := by
    intro hidle
    have hinflight : self.modes.inflightPeerChangeModes = [] := hfront.inflight.symm.trans hidle
    exact hfront.pending.trans (h.deferring hinflight)
  have hinflight : m.modes.inflightPeerChangeModes =
      (task :: rest).filterMap fun task => changeModes? task.command :=
    hfront.inflight.trans (Eq.trans hagree (waiting_peer hpeer))
  have hafter : waiting { m with
      iphonePeer := some ⟨none, rest⟩
      modes := afterExchange plists m.modes task outcome
      finished } = rest.filterMap fun task => changeModes? task.command := waiting_peer rfl
  have hemptied : ∀ peer : IphonePeer, some (⟨none, rest⟩ : IphonePeer) = some peer →
      peer.ready = none := by
    intro peer hsome
    obtain rfl := Option.some.inj hsome
    rfl
  rw [hdispatch]
  refine ⟨⟨⟨hop, hcmd, hemptied⟩, ?_⟩, ?_⟩
  · show Deferring (afterExchange plists m.modes task outcome)
    unfold afterExchange
    split
    · exact (onPeerChangeModesEnd_queues hdeferring _).2
    · exact hdeferring
  · unfold Agree
    rw [hafter]
    show (afterExchange plists m.modes task outcome).inflightPeerChangeModes = _ ↔ _
    unfold afterExchange
    cases hmodes : changeModes? task.command with
    | none =>
      have hother : ∀ modes, task.command ≠ .changeModes modes := by
        intro modes hcommand
        rw [hcommand] at hmodes
        cases hmodes
      have hskip : ((task :: rest).filterMap fun task => changeModes? task.command) =
          rest.filterMap fun task => changeModes? task.command := List.filterMap_cons_none hmodes
      dsimp only
      rw [hinflight, hskip]
      simp [hother]
    | some modes =>
      have hcommand : task.command = .changeModes modes := by
        cases hc : task.command with
        | changeModes modes' =>
          rw [hc] at hmodes
          rw [Option.some.inj hmodes]
        | _ =>
          rw [hc] at hmodes
          cases hmodes
      have htake : ((task :: rest).filterMap fun task => changeModes? task.command) =
          modes :: rest.filterMap fun task => changeModes? task.command :=
        List.filterMap_cons_some hmodes
      rw [htake] at hinflight
      cases hread : outcome.bind fun resp => plists.decode resp.payload with
      | none =>
        dsimp only
        rw [hinflight]
        simp [hcommand]
      | some p =>
        dsimp only
        rw [(onPeerChangeModesEnd_queues hdeferring p).1, hinflight]
        simp

end Round

/-- **One round.** -/
theorem round_agree {plists : Plists} {m m' : CarManager} {event : Wake × Answers}
    (h : Tracked m) (hagree : Agree m) (hround : m.round plists event = some m') :
    Tracked m' ∧ (Agree m' ↔ Answered plists m event) := by
  obtain ⟨filled, hfill, rfl⟩ := round_some hround
  obtain ⟨wake, answers⟩ := event
  have hstart := same_startTask m
  have hm := hstart.tracked h
  have hagree' := hstart.agree.mpr hagree
  rw [(same_settle _ answers).agree]
  -- nothing in the slots
  have hquiet : SameExchanges m filled → Answered plists m (wake, answers) →
      Tracked (settle answers (dispatch plists answers filled)) ∧
        (Agree (dispatch plists answers filled) ↔ Answered plists m (wake, answers)) := by
    intro hsame hcond
    have hdispatch : SameExchanges filled (dispatch plists answers filled) :=
      same_dispatch (hsame.tracked h).emptied
    refine ⟨(same_settle _ answers).tracked (hdispatch.tracked (hsame.tracked h)), ?_⟩
    rw [hdispatch.agree, hsame.agree]
    exact ⟨fun _ => hcond, fun _ => hagree⟩
  cases wake with
  | screens =>
    obtain rfl := Option.some.inj hfill
    exact hquiet hstart trivial
  | proxyOp op =>
    obtain rfl := Option.some.inj hfill
    obtain ⟨htracked, hiff⟩ := @dispatch_op plists answers m.startTask hm hagree' op
    refine ⟨(same_settle _ answers).tracked htracked, ?_⟩
    rw [hstart.waiting] at hiff
    refine hiff.trans ?_
    cases op with
    | iphoneConnected => exact ⟨fun hall => hall rfl, fun hnone _ => hnone⟩
    | _ => exact ⟨fun _ => trivial, fun _ heq => by cases heq⟩
  | screenSetup =>
    unfold fill at hfill
    dsimp only at hfill
    split at hfill
    · obtain rfl := Option.some.inj hfill
      exact hquiet (hstart.trans ⟨rfl, rfl, rfl, rfl, rfl⟩) trivial
    · cases hfill
  | command command =>
    obtain rfl := Option.some.inj hfill
    obtain ⟨htracked, hafter⟩ := @dispatch_command plists answers m.startTask hm hagree'
      ⟨command, none⟩
    exact ⟨(same_settle _ answers).tracked htracked, fun _ => trivial, fun _ => hafter⟩
  | txClosed =>
    obtain rfl := Option.some.inj hfill
    exact hquiet (hstart.trans ⟨rfl, rfl, rfl, rfl, rfl⟩) trivial
  | proxied outcome =>
    unfold fill at hfill
    dsimp only at hfill
    split at hfill
    · rename_i task rest hpeer
      obtain rfl := Option.some.inj hfill
      obtain ⟨htracked, hiff⟩ := @dispatch_proxied plists answers m.startTask hm hagree' task rest
        outcome hpeer
      refine ⟨(same_settle _ answers).tracked htracked, hiff.trans ?_⟩
      rw [hstart.iphonePeer] at hpeer
      constructor
      · intro hall peer task' rest' modes hsome hqueue
        obtain rfl := Option.some.inj (hpeer.symm.trans hsome)
        obtain ⟨rfl, rfl⟩ := List.cons.inj hqueue
        exact hall modes
      · intro hall modes
        exact hall _ task rest modes hpeer rfl
    · cases hfill
  | taskDone =>
    obtain ⟨task, -, rfl⟩ := Option.map_eq_some_iff.mp hfill
    exact hquiet (hstart.trans ⟨rfl, rfl, rfl, rfl, rfl⟩) trivial
  | taskFailed =>
    obtain ⟨task, -, rfl⟩ := Option.map_eq_some_iff.mp hfill
    exact hquiet (hstart.trans ⟨rfl, rfl, rfl, rfl, rfl⟩) trivial

/-! ## A run -/

/-- The manager when it sleeps for the first time. -/
theorem tracked_start {plists : Plists} {infoModes : ChangeModes} {nightMode : Bool}
    {answers : Answers} {m : CarManager}
    (h : (new infoModes nightMode).reconcile plists answers = .ok m) : Tracked m ∧ Agree m := by
  have hnew : Tracked (new infoModes nightMode) :=
    ⟨⟨rfl, rfl, fun _ hpeer => nomatch hpeer⟩, fun _ => rfl⟩
  have hsame : SameExchanges (new infoModes nightMode) m := by
    rw [reconcile_ok h]
    exact (same_dispatch hnew.emptied).trans (same_settle _ answers)
  exact ⟨hsame.tracked hnew, hsame.agree.mpr rfl⟩

theorem worker_some {plists : Plists} {infoModes : ChangeModes} {nightMode : Bool}
    {answers : Answers} {events : List (Wake × Answers)} {m : CarManager} :
    worker plists infoModes nightMode answers events = some m ↔
      ∃ s, (new infoModes nightMode).reconcile plists answers = .ok s ∧
        run (round plists) s events = some m := by
  unfold worker
  cases hstart : (new infoModes nightMode).reconcile plists answers with
  | error e => simp [Except.toOption]
  | ok s => simp [Except.toOption]

/-- **When every exchange is closed.** In a run of the manager the requests in flight in the arbiter
are those that wait, in order, in each of its states if and only if the phone answers every
`ChangeModes` that is over with a response that can be read, and no new phone comes while one
waits. -/
theorem closed_iff_answered (plists : Plists) (infoModes : ChangeModes) (nightMode : Bool)
    (answers : Answers) {events : List (Wake × Answers)} {last : CarManager}
    (hrun : worker plists infoModes nightMode answers events = some last) :
    (∀ front m, front <+: events → worker plists infoModes nightMode answers front = some m →
      Closed m) ↔
    ∀ s, worker plists infoModes nightMode answers [] = some s →
      AllSteps (round plists) (Answered plists) s events := by
  obtain ⟨s, hs, hrun'⟩ := worker_some.mp hrun
  obtain ⟨htracked, hagree⟩ := tracked_start hs
  have hstep : ∀ m event m', Tracked m → Agree m → round plists m event = some m' →
      Tracked m' ∧ (Agree m' ↔ Answered plists m event) :=
    fun _ _ _ h hm hround => round_agree h hm hround
  have hiff := run_iff_allSteps Tracked Agree (Answered plists) hstep htracked hagree hrun'
  have hstart : worker plists infoModes nightMode answers [] = some s :=
    worker_some.mpr ⟨s, hs, rfl⟩
  have hall : (∀ front m, front <+: events →
      worker plists infoModes nightMode answers front = some m → Closed m) ↔
        ∀ front m, front <+: events → run (round plists) s front = some m → Agree m := by
    constructor
    · intro hclosed front m hfront hm
      exact (hclosed front m hfront (worker_some.mpr ⟨s, hs, hm⟩)).inflight
    · intro hagree' front m hfront hm
      obtain ⟨s', hs', hm'⟩ := worker_some.mp hm
      obtain rfl := Except.ok.inj (hs.symm.trans hs')
      have hsteps : AllSteps (round plists) (Answered plists) s front :=
        (run_iff_allSteps Tracked Agree (Answered plists) hstep htracked hagree hm').mp
          fun front' m' hfront' hm' => hagree' front' m' (hfront'.trans hfront) hm'
      have hkept := run_invariant_of_allSteps (fun m => Tracked m ∧ Agree m) (Answered plists)
        (fun _ _ _ h hcond hround =>
          ⟨(round_agree h.1 h.2 hround).1, (round_agree h.1 h.2 hround).2.mpr hcond⟩)
        ⟨htracked, hagree⟩ hsteps hm'
      exact (closed_iff_agree hkept.1).mpr hkept.2
  rw [hall, hiff]
  constructor
  · intro hsteps s' hs'
    obtain rfl := Option.some.inj (hstart.symm.trans hs')
    exact hsteps
  · exact fun hsteps => hsteps s hstart

/-! ## A run with an answer that cannot be read -/

/-- A property list codec that reads one payload. -/
def onePlist : Plists where
  decode payload := if payload = [1] then some ⟨0, none⟩ else none
  encode _ := some [1]

def noModes : ChangeModes := ⟨[], [], []⟩

def calm : Answers := ⟨true, false, false⟩

/-- The phone comes and the car wants to change the modes; the phone answers with a payload. -/
def oneExchange (payload : List UInt8) : List (Wake × Answers) :=
  [(.proxyOp .iphoneConnected, calm), (.command (.changeModes noModes), calm),
    (.proxied (some { RtspResponse.new none .ok with payload }), calm)]

/-- The phone reports the modes that the car began with. -/
def oneReport : Wake × Answers :=
  (.proxyOp (.modes (ResourceController.fromChangeModes noModes).serializeToState), calm)

/-- A run in which the answer can be read. -/
theorem closed_iff_answered_readable :
    ∃ last, worker onePlist noModes false calm (oneExchange [1]) = some last ∧
      ((∀ front m, front <+: oneExchange [1] →
          worker onePlist noModes false calm front = some m → Closed m) ↔
        ∀ s, worker onePlist noModes false calm [] = some s →
          AllSteps (round onePlist) (Answered onePlist) s (oneExchange [1])) := by
  have hrun : (worker onePlist noModes false calm (oneExchange [1])).isSome := by decide
  obtain ⟨last, hlast⟩ := Option.isSome_iff_exists.mp hrun
  exact ⟨last, hlast, closed_iff_answered onePlist noModes false calm hlast⟩

/-- **An answer without a body**: the request stays in flight though none waits, and the next report
of the phone is deferred. -/
theorem oneExchange_left :
    ∃ last, worker onePlist noModes false calm (oneExchange [] ++ [oneReport]) = some last ∧
      waiting last = [] ∧ last.modes.inflightPeerChangeModes = [noModes] ∧
      last.modes.pendingPeerModesChanged.length = 1 ∧ ¬Closed last := by
  have hrun : (worker onePlist noModes false calm (oneExchange [] ++ [oneReport])).any
      (fun m => decide (waiting m = []) && decide (m.modes.inflightPeerChangeModes = [noModes]) &&
        decide (m.modes.pendingPeerModesChanged.length = 1)) = true := by
    decide
  obtain ⟨last, hlast, hall⟩ := (Option.any_eq_true _ _).mp hrun
  simp only [Bool.and_eq_true, decide_eq_true_eq] at hall
  refine ⟨last, hlast, hall.1.1, hall.1.2, hall.2, fun hclosed => ?_⟩
  have hagree := hclosed.inflight
  rw [hall.1.1, hall.1.2] at hagree
  cases hagree

end Catplay.Analysis.Proxy
