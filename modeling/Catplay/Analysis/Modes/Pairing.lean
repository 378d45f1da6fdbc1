import Catplay.Analysis.Modes.Requests

/-!
# Accepted requests and the reports that follow them

A memory beside the arbiter keeps, for each resource, the latest accepted request about it
and the state that the reports since then put it in. The arbiter takes an accepted request
off its queue with every report, whatever the report says; as long as each report that
answers a request for a resource is paired with that request (`Paired`), the arbiter holds
the constraints of the latest one (`accepted_constraints_held`).
-/

set_option autoImplicit false

namespace Catplay.Analysis.Modes.Pairing

open Catplay.Library.Run Catplay.Model.Modes Catplay.Model.Modes.ModesArbiter
open Catplay.Analysis.Modes.Reports

/-- The exchange with the phone. -/
inductive PeerCall
  | start (modes : ChangeModes)
  | ended (resp : ChangeModesResponse)
  | changed (modes : ModesChanged)
  deriving DecidableEq, Repr

def PeerCall.toCall : PeerCall → Call
  | start modes => .peerChangeModesStart modes
  | ended resp => .peerChangeModesEnd resp
  | changed modes => .peerModesChanged modes

/-! ## Items of a report -/

/-- The item of a report that decides about a resource. -/
def lastItem (id : ResourceID) : List ResourceChanged → Option ResourceChanged
  | [] => none
  | item :: items => (lastItem id items).or (if item.resourceId = id then some item else none)

theorem lastItem_cons (id : ResourceID) (item : ResourceChanged) (items : List ResourceChanged) :
    lastItem id (item :: items) =
      (lastItem id items).or (if item.resourceId = id then some item else none) := rfl

/-- The state that a report puts a resource in. -/
def reportedState (modes : ModesChanged) (id : ResourceID) : Option ResourceState :=
  (lastItem id modes.resources).map fun item => .fromPair item.entity item.permanentEntity

theorem foldl_applyPeerResource_lastItem (a : ModesArbiter) (acceptedRequest : Option ChangeModes)
    (rc : ResourceController) (items : List ResourceChanged) (id : ResourceID) :
    (items.foldl (a.applyPeerResource acceptedRequest) rc).resource id =
      match lastItem id items with
      | none => rc.resource id
      | some item =>
        mergePeerResource (a.resource id) (.fromPair item.entity item.permanentEntity) id
          acceptedRequest := by
  induction items generalizing rc with
  | nil => rfl
  | cons item items ih =>
    rw [List.foldl_cons, ih, lastItem_cons]
    cases hlast : lastItem id items with
    | some last => rfl
    | none =>
      by_cases hitem : item.resourceId = id
      · subst hitem
        simp [applyPeerResource]
      · simp [applyPeerResource, hitem, Ne.symm hitem]

/-- **A report decides about a resource by its last item**, merged with the oldest accepted
request. -/
theorem applyWithAccepted_lastItem (a : ModesArbiter) (modes : ModesChanged) (id : ResourceID) :
    (a.applyWithAccepted modes).resource id =
      match reportedState modes id with
      | none => a.resource id
      | some state =>
        mergePeerResource (a.resource id) state id a.acceptedPeerChangeModes.head? := by
  have hfold := foldl_applyPeerResource_lastItem
    { a with acceptedPeerChangeModes := a.acceptedPeerChangeModes.tail }
    a.acceptedPeerChangeModes.head? (modes.appStates.foldl applyPeerAppState a.modes)
    modes.resources id
  rw [foldl_applyPeerAppState_resource] at hfold
  unfold reportedState
  cases hlast : lastItem id modes.resources with
  | none =>
    rw [hlast] at hfold
    exact hfold
  | some item =>
    rw [hlast] at hfold
    exact hfold

/-! ## The memory -/

structure Memory where
  /-- The item of the latest accepted request that names the resource. -/
  asked : ResourceID → Option Resource
  /-- The state of the latest report on the resource since then. -/
  reported : ResourceID → Option ResourceState

namespace Memory

def blank : Memory := ⟨fun _ => none, fun _ => none⟩

/-- A request is accepted. -/
def accept (self : Memory) (request : ChangeModes) : Memory where
  asked := fun id => (findResource request id).or (self.asked id)
  reported := fun id => if (findResource request id).isSome then none else self.reported id

/-- A report is applied. -/
def hear (self : Memory) (modes : ModesChanged) : Memory :=
  { self with reported := fun id => (reportedState modes id).or (self.reported id) }

end Memory

/-- The report gives the accessory what the item asked for, with constraints. -/
def Corresponds (item : Resource) (state : ResourceState) : Prop :=
  (item.transferType = .take ∧ item.takeConstraint.isSome ∧ item.borrowConstraint.isSome ∧
      state.owner = .accessory) ∨
    (item.transferType = .borrow ∧ item.unborrowConstraint.isSome ∧ state = .accessoryBorrowed)

instance (item : Resource) (state : ResourceState) : Decidable (Corresponds item state) := by
  unfold Corresponds
  infer_instance

/-- The constraints of the manager are those of the item. -/
def Honours (item : Resource) (rm : ResourceManager) : Prop :=
  (item.transferType = .take → item.takeConstraint = some rm.takeConstraint ∧
      item.borrowConstraint = some rm.borrowConstraint) ∧
    (item.transferType = .borrow → item.unborrowConstraint = some rm.unborrowConstraint)

/-- **Agreement.** A resource that the accessory was given on its latest accepted request is
held under the constraints of that request. -/
def Agrees (a : ModesArbiter) (m : Memory) : Prop :=
  ∀ id item state, m.asked id = some item → m.reported id = some state →
    Corresponds item state → (a.resource id).state = state ∧ Honours item (a.resource id)

/-- A report that gives the accessory what it asked for is paired with that very request, or
repeats what was reported since and is paired with no request about the resource. -/
def Paired (m : Memory) (head : Option ChangeModes) (modes : ModesChanged) : Prop :=
  ∀ id item state, m.asked id = some item → reportedState modes id = some state →
    Corresponds item state →
      head.bind (findResource · id) = some item ∨
        (head.bind (findResource · id) = none ∧
          ∃ earlier, m.reported id = some earlier ∧ Corresponds item earlier)

/-- What a call adds to the memory, and the accepted requests it leaves for the reports. -/
def afterAnswer (a : ModesArbiter) (m : Memory) : PeerCall → Memory × List ChangeModes
  | .ended resp =>
    match a.inflightPeerChangeModes with
    | [] => (m, a.acceptedPeerChangeModes)
    | request :: _ =>
      if resp.status ≠ 0 then (m, a.acceptedPeerChangeModes)
      else (m.accept request, a.acceptedPeerChangeModes ++ [request])
  | _ => (m, a.acceptedPeerChangeModes)

/-- Every report of a queue is paired as it should. -/
def AllPaired : Memory → List ChangeModes → List ModesChanged → Prop
  | _, _, [] => True
  | m, accepted, modes :: rest =>
    Paired m accepted.head? modes ∧ AllPaired (m.hear modes) accepted.tail rest

/-! ## One report -/

theorem honours_merged {item : Resource} {state : ResourceState} (hcorr : Corresponds item state)
    (old : ResourceManager) {id : ResourceID} {head : Option ChangeModes}
    (hhead : head.bind (findResource · id) = some item) :
    Honours item (mergePeerResource old state id head) := by
  rcases hcorr with ⟨htake, ht, hb, howner⟩ | ⟨hborrow, hu, rfl⟩
  · have hstate : state ≠ .accessoryBorrowed := by
      rintro rfl
      cases howner
    have hfind : findTransfer head id .take = some item := by
      simp [findTransfer, hhead, htake]
    have howner' : state.owner ≠ .controller := by
      rw [howner]
      decide
    obtain ⟨t, ht⟩ := Option.isSome_iff_exists.mp ht
    obtain ⟨b, hb⟩ := Option.isSome_iff_exists.mp hb
    unfold mergePeerResource
    rw [if_neg hstate, if_neg howner', hfind]
    refine ⟨fun _ => ⟨?_, ?_⟩, fun h => ?_⟩
    · simp [ResourceManager.new, ht]
    · simp [ResourceManager.new, hb]
    · rw [htake] at h
      cases h
  · have hfind : findTransfer head id .borrow = some item := by
      simp [findTransfer, hhead, hborrow]
    obtain ⟨u, hu⟩ := Option.isSome_iff_exists.mp hu
    unfold mergePeerResource
    rw [if_pos rfl, hfind]
    refine ⟨fun h => ?_, fun _ => ?_⟩
    · rw [hborrow] at h
      cases h
    · simp [ResourceManager.withUnborrowConstraint, hu]

/-- Without a request about the resource the merge keeps constraints that are in force. -/
theorem honours_kept {item : Resource} {state : ResourceState} {old : ResourceManager}
    (hcorr : Corresponds item state) (hold : Corresponds item old.state)
    (hhonours : Honours item old) {id : ResourceID} {head : Option ChangeModes}
    (hhead : head.bind (findResource · id) = none) :
    Honours item (mergePeerResource old state id head) := by
  have hfind : ∀ type, findTransfer head id type = none := by
    intro type
    simp [findTransfer, hhead]
  rcases hcorr with ⟨htake, -, -, howner⟩ | ⟨hborrow, -, rfl⟩
  · have hstate : state ≠ .accessoryBorrowed := by
      rintro rfl
      cases howner
    have howner' : state.owner ≠ .controller := by
      rw [howner]
      decide
    have holdOwner : old.owner = .accessory := by
      rcases hold with ⟨-, -, -, h⟩ | ⟨h, -⟩
      · exact h
      · rw [htake] at h
        cases h
    unfold mergePeerResource
    rw [if_neg hstate, if_neg howner', hfind]
    simp only [holdOwner, if_true]
    refine ⟨fun _ => hhonours.1 htake, fun h => ?_⟩
    rw [htake] at h
    cases h
  · have holdState : old.state = .accessoryBorrowed := by
      rcases hold with ⟨h, -⟩ | ⟨-, -, h⟩
      · rw [hborrow] at h
        cases h
      · exact h
    unfold mergePeerResource
    rw [if_pos rfl, hfind, holdState]
    refine ⟨fun h => ?_, fun _ => hhonours.2 hborrow⟩
    rw [hborrow] at h
    cases h

/-- **One report** that is paired as it should keeps the agreement. -/
theorem Agrees.applyWithAccepted {a : ModesArbiter} {m : Memory} (h : Agrees a m)
    {modes : ModesChanged} (hpaired : Paired m a.acceptedPeerChangeModes.head? modes) :
    Agrees (a.applyWithAccepted modes) (m.hear modes) := by
  intro id item state hasked hreported hcorr
  have hresource := applyWithAccepted_lastItem a modes id
  unfold Memory.hear at hasked hreported
  dsimp only at hasked hreported
  cases hmodes : reportedState modes id with
  | none =>
    rw [hmodes] at hresource hreported
    rw [hresource]
    exact h id item state hasked hreported hcorr
  | some state' =>
    rw [hmodes] at hresource hreported
    obtain rfl := Option.some.inj hreported
    rw [hresource, mergePeerResource_state]
    refine ⟨rfl, ?_⟩
    rcases hpaired id item state' hasked hmodes hcorr with hhead | ⟨hhead, earlier, hear, hcorr'⟩
    · exact honours_merged hcorr _ hhead
    · obtain ⟨hstate, hhonours⟩ := h id item earlier hasked hear hcorr'
      exact honours_kept hcorr (hstate ▸ hcorr') hhonours hhead

/-- The reports of the queue, one after another. -/
theorem Agrees.drainPending {a : ModesArbiter} {m : Memory} (h : Agrees a m)
    (queue : List ModesChanged) (hpaired : AllPaired m a.acceptedPeerChangeModes queue) :
    Agrees (a.drainPending queue) (queue.foldl Memory.hear m) := by
  induction queue generalizing a m with
  | nil => exact h
  | cons modes rest ih =>
    obtain ⟨hfirst, hrest⟩ := hpaired
    rw [List.foldl_cons]
    exact ih (h.applyWithAccepted hfirst) hrest

theorem Agrees.accept {a b : ModesArbiter} {m : Memory} (h : Agrees a m) (request : ChangeModes)
    (hmodes : b.modes = a.modes) : Agrees b (m.accept request) := by
  intro id item state hasked hreported hcorr
  unfold Memory.accept at hasked hreported
  dsimp only at hasked hreported
  cases hfind : findResource request id with
  | some named =>
    rw [hfind] at hreported
    cases hreported
  | none =>
    rw [hfind] at hasked hreported
    have hsame : b.resource id = a.resource id := by
      unfold ModesArbiter.resource
      rw [hmodes]
    rw [hsame]
    exact h id item state hasked hreported hcorr

/-! ## Runs -/

structure Tracked where
  arbiter : ModesArbiter
  memory : Memory

def tracked (info : ChangeModes) : Tracked := ⟨new info, .blank⟩

def Tracked.call (t : Tracked) (c : PeerCall) : Tracked where
  arbiter := t.arbiter.call c.toCall
  memory := (appliedReports t.arbiter c.toCall).foldl .hear (afterAnswer t.arbiter t.memory c).1

def trackedStep (t : Tracked) (c : PeerCall) : Option Tracked := some (t.call c)

def peerStep (a : ModesArbiter) (c : PeerCall) : Option ModesArbiter := some (a.call c.toCall)

/-- Every report that the call applies is paired as it should. -/
def PairsReports (t : Tracked) (c : PeerCall) : Prop :=
  AllPaired (afterAnswer t.arbiter t.memory c).1 (afterAnswer t.arbiter t.memory c).2
    (appliedReports t.arbiter c.toCall)

theorem Agrees.same_modes {a b : ModesArbiter} {m : Memory} (h : Agrees a m)
    (hmodes : b.modes = a.modes) : Agrees b m := by
  intro id item state hasked hreported hcorr
  unfold ModesArbiter.resource
  rw [hmodes]
  exact h id item state hasked hreported hcorr

/-- One call whose reports are paired as they should keeps the agreement. -/
theorem agrees_call {t : Tracked} {c : PeerCall} (h : Agrees t.arbiter t.memory)
    (hpairs : PairsReports t c) : Agrees (t.call c).arbiter (t.call c).memory := by
  obtain ⟨a, m⟩ := t
  unfold PairsReports at hpairs
  unfold Tracked.call
  dsimp only at h hpairs ⊢
  cases c with
  | start modes => exact h.same_modes rfl
  | changed modes =>
    unfold PeerCall.toCall ModesArbiter.call onPeerModesChanged markDirty
    by_cases hidle : a.inflightPeerChangeModes.isEmpty
    · simp only [afterAnswer, PeerCall.toCall, appliedReports, hidle, if_true] at hpairs ⊢
      have hdirty : Agrees { a with modesDirty := true } m := h.same_modes rfl
      exact hdirty.applyWithAccepted hpairs.1
    · simp only [appliedReports, hidle, Bool.false_eq_true, if_false]
      exact h.same_modes rfl
  | ended resp =>
    unfold PeerCall.toCall ModesArbiter.call onPeerChangeModesEnd
    cases hinflight : a.inflightPeerChangeModes with
    | nil =>
      simp only [afterAnswer, appliedReports, hinflight]
      exact h
    | cons request inflight =>
      simp only [afterAnswer, PeerCall.toCall, appliedReports, hinflight] at hpairs ⊢
      unfold drainPendingPeerModesChangedIfIdle
      by_cases hidle : inflight.isEmpty
      · by_cases hstatus : resp.status = 0
        · simp only [hstatus, hidle, ne_eq, not_true_eq_false, if_true, if_false] at hpairs ⊢
          have hnow : Agrees { a with
              inflightPeerChangeModes := inflight
              acceptedPeerChangeModes := a.acceptedPeerChangeModes ++ [request] }
                (m.accept request) := h.accept request rfl
          exact hnow.drainPending _ hpairs
        · simp only [hstatus, hidle, ne_eq, not_false_eq_true, if_true] at hpairs ⊢
          have hnow : Agrees { a with inflightPeerChangeModes := inflight } m :=
            h.same_modes rfl
          exact hnow.drainPending _ hpairs
      · by_cases hstatus : resp.status = 0
        · simp only [hstatus, hidle, ne_eq, not_true_eq_false, Bool.false_eq_true, if_false]
          exact h.accept request rfl
        · simp only [hstatus, hidle, ne_eq, not_false_eq_true, Bool.false_eq_true, if_true,
            if_false]
          exact h.same_modes rfl

/-- **The constraints of the latest accepted request are held**, over every run in which the
reports are paired as they should. -/
theorem accepted_constraints_held (info : ChangeModes) (calls : List PeerCall) (t : Tracked)
    (hrun : run trackedStep (tracked info) calls = some t)
    (hpairs : AllSteps trackedStep PairsReports (tracked info) calls) :
    run peerStep (new info) calls = some t.arbiter ∧ Agrees t.arbiter t.memory := by
  constructor
  · exact run_project Tracked.arbiter (fun s c s' hs => by
      obtain rfl := Option.some.inj hs
      rfl) hrun
  · refine run_invariant_of_allSteps (fun t => Agrees t.arbiter t.memory) PairsReports ?_ ?_
      hpairs hrun
    · intro s c s' hs hc hstep
      obtain rfl := Option.some.inj hstep
      exact agrees_call hs hc
    · intro id item state hasked
      cases hasked

/-- The car takes the main audio for good. -/
def takeAudio : ChangeModes := ⟨[], [.take .mainAudio .userInitiated .never .userInitiated], []⟩

/-- A report on both resources; the screen stays with the phone. -/
def audioReport (entity : EntityEnum) : ModesChanged :=
  ⟨[], [⟨.mainScreen, .controller, .controller⟩, ⟨.mainAudio, entity, entity⟩]⟩

/-- The report that follows the request at once is paired with it. -/
theorem accepted_constraints_held_take :
    ∃ t, run trackedStep (tracked ⟨[], [], []⟩)
        [.start takeAudio, .ended ⟨0, none⟩, .changed (audioReport .accessory)] = some t ∧
      (t.arbiter.resource .mainAudio).takeConstraint = .never ∧
      Agrees t.arbiter t.memory := by
  refine ⟨_, rfl, rfl, (accepted_constraints_held ⟨[], [], []⟩
    [.start takeAudio, .ended ⟨0, none⟩, .changed (audioReport .accessory)] _ rfl ?_).2⟩
  refine ⟨trivial, fun t ht => ?_⟩
  obtain rfl := Option.some.inj ht
  refine ⟨trivial, fun t ht => ?_⟩
  obtain rfl := Option.some.inj ht
  refine ⟨⟨?_, trivial⟩, fun _ _ => trivial⟩
  intro id item state hasked _ _
  left
  cases id with
  | mainScreen => cases hasked
  | mainAudio => exact hasked

/-- **A report on anything else takes the request away.** The phone reports the modes once more
before the car has the audio; the report that gives it the audio is then merged with no
request, and the audio is held under the defaults. -/
theorem report_drops_constraints :
    ∃ t, run trackedStep (tracked ⟨[], [], []⟩)
        [.start takeAudio, .ended ⟨0, none⟩, .changed (audioReport .controller),
          .changed (audioReport .accessory)] = some t ∧
      (t.arbiter.resource .mainAudio).takeConstraint = .anytime ∧
      ¬ Agrees t.arbiter t.memory := by
  refine ⟨_, rfl, rfl, fun h => ?_⟩
  obtain ⟨-, hhonours, -⟩ := h .mainAudio (.take .mainAudio .userInitiated .never .userInitiated)
    .accessoryHas rfl rfl (by decide)
  exact absurd (hhonours rfl).1 (by decide)

end Catplay.Analysis.Modes.Pairing
