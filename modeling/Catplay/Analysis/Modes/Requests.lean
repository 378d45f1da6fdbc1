import Catplay.Model.Modes.ModesArbiter

/-!
# Requests and reports

What one request and what one report do to the resources.
-/

set_option autoImplicit false

/-!
## What one request does to one resource

One lemma for each transfer type lists everything a request of a party can do to
the manager of a resource, with the guard of each outcome. The results about
ownership and about borrow counts go through these lemmas and do not unfold the
handlers again.
-/

namespace Catplay.Analysis.Modes.Requests

open Catplay.Model.Modes
open Catplay.Model.Modes.ResourceManager (entityForControllerFlag otherEntity prioritySatisfies)

/-- The constraint that protects the current user against a transfer: a borrower is
protected by the unborrow constraint, an owner by the constraint of the transfer's type. -/
def constraintInForce (rm : ResourceManager) (type : ResourceTransferType) : ResourceConstraint :=
  if rm.isBorrowed then rm.unborrowConstraint
  else if type = .take then rm.takeConstraint
  else rm.borrowConstraint

/-- The state in which a party owns and uses the resource. -/
def ownedBy (actor : EntityEnum) : ResourceState := .fromPair actor actor

/-- The state in which a party borrows the resource from the other party. -/
def borrowedBy (actor : EntityEnum) : ResourceState := .fromPair actor (otherEntity actor)

/-- Changing sides twice changes nothing. -/
@[simp] theorem otherEntity_otherEntity (entity : EntityEnum) :
    otherEntity (otherEntity entity) = entity := by
  cases entity <;> rfl

/-- The owner of a resource nobody borrows is its user. -/
@[simp] theorem entity_ownedBy (controller : Bool) :
    (ownedBy (entityForControllerFlag controller)).entity = entityForControllerFlag controller := by
  cases controller <;> rfl

/-- The user of a borrowed resource is its borrower. -/
@[simp] theorem entity_borrowedBy (controller : Bool) :
    (borrowedBy (entityForControllerFlag controller)).entity =
      entityForControllerFlag controller := by
  cases controller <;> rfl

/-- Unless the resource is borrowed, its owner uses it. -/
theorem owner_eq_entity {rm : ResourceManager} (h : ¬ rm.isBorrowed) : rm.owner = rm.entity := by
  obtain ⟨state, _, _, _, _⟩ := rm
  cases state <;> first | rfl | exact absurd rfl h

/-- A resource that can be lent to a party and has a user is used by the other party,
which owns it. -/
theorem lendable_entity {rm : ResourceManager} {controller : Bool}
    (hstate : rm.state = ownedBy (otherEntity (entityForControllerFlag controller)) ∨
      rm.state = .invalid)
    (huser : rm.entity ≠ .none) :
    rm.entity = otherEntity (entityForControllerFlag controller) ∧ rm.isBorrowed = false := by
  obtain hstate | hstate := hstate
  · unfold ResourceManager.entity ResourceManager.isBorrowed
    rw [hstate]
    cases controller <;> exact ⟨rfl, rfl⟩
  · simp [ResourceManager.entity, hstate, ResourceState.entity] at huser

/-- A `Take` that is accepted carries a priority. -/
theorem takeRequestFields_priority {resource : Resource} {priority : ResourceTransferPriority}
    {take borrow : ResourceConstraint}
    (h : ResourceManager.takeRequestFields resource = some (priority, take, borrow)) :
    resource.transferPriority = some priority := by
  simp only [ResourceManager.takeRequestFields, Option.bind_eq_bind, Option.pure_def,
    Option.bind_eq_some_iff, Option.some.injEq, Prod.mk.injEq] at h
  obtain ⟨p, hp, t, -, b, -, rfl, -, -⟩ := h
  exact hp

/-- A `Borrow` that is accepted carries a priority. -/
theorem borrowRequestPriority_priority {resource : Resource}
    {priority : ResourceTransferPriority}
    (h : ResourceManager.borrowRequestPriority resource = some priority) :
    resource.transferPriority = some priority := by
  unfold ResourceManager.borrowRequestPriority at h
  split at h
  · cases h
  · exact h

/-- **Take.** It is rejected, or the actor owns the resource afterwards; from the other
party it is taken only with a priority that satisfies the constraint in force. -/
theorem takeBy_cases (rm : ResourceManager) (resource : Resource) (controller : Bool) :
    rm.takeBy resource controller = (rm, false) ∨
      ∃ priority take borrow, resource.transferPriority = some priority ∧
        rm.takeBy resource controller =
          (.new (ownedBy (entityForControllerFlag controller)) take borrow, true) ∧
        (rm.entity = otherEntity (entityForControllerFlag controller) →
          prioritySatisfies priority (constraintInForce rm .take)) := by
  cases hfields : ResourceManager.takeRequestFields resource with
  | none => exact Or.inl (by simp [ResourceManager.takeBy, hfields])
  | some fields =>
    obtain ⟨priority, take, borrow⟩ := fields
    have hpriority := takeRequestFields_priority hfields
    simp only [ResourceManager.takeBy, hfields]
    split
    · exact Or.inl rfl
    · rename_i hlent
      split
      · exact Or.inl rfl
      · rename_i htaken
        refine Or.inr ⟨priority, take, borrow, hpriority, rfl, fun huser => ?_⟩
        -- the two guards are the two constraints that can be in force
        obtain ⟨state, takeConstraint, borrowConstraint, unborrowConstraint, count⟩ := rm
        cases state <;> cases controller <;>
          simp_all [ResourceManager.entity, ResourceState.entity, otherEntity,
            entityForControllerFlag, ResourceState.fromPair, ResourceManager.owner,
            ResourceState.owner, constraintInForce, ResourceManager.isBorrowed,
            ResourceState.isBorrowed]

/-- **Untake.** It is rejected, or the actor owned the resource and leaves it unclaimed,
or nothing changes. -/
theorem untakeBy_cases (rm : ResourceManager) (resource : Resource) (controller : Bool) :
    rm.untakeBy resource controller = (rm, false) ∨
      (rm.owner = entityForControllerFlag controller ∧
        rm.untakeBy resource controller = (.unclaimed, true)) ∨
      (rm.owner ≠ entityForControllerFlag controller ∧
        rm.untakeBy resource controller = (rm, true)) := by
  unfold ResourceManager.untakeBy
  split
  · exact Or.inl rfl
  · split
    · exact Or.inr (Or.inl ⟨by assumption, rfl⟩)
    · exact Or.inr (Or.inr ⟨by assumption, rfl⟩)

/-- **Borrow.** It is rejected, or the borrower borrows once more, or the resource of the
other party or an unclaimed one is lent to the actor with a priority that satisfies the
borrow constraint. -/
theorem borrowBy_cases (rm : ResourceManager) (resource : Resource) (controller : Bool) :
    rm.borrowBy resource controller = (rm, false) ∨
      (rm.state = borrowedBy (entityForControllerFlag controller) ∧
        rm.borrowBy resource controller =
          ({ rm with borrowsCount := min (rm.borrowsCount + 1) usizeMax }, true)) ∨
      ∃ priority, resource.transferPriority = some priority ∧
        (rm.state = ownedBy (otherEntity (entityForControllerFlag controller)) ∨
          rm.state = .invalid) ∧
        prioritySatisfies priority rm.borrowConstraint ∧
        rm.borrowBy resource controller =
          ({ rm with
              unborrowConstraint := resource.unborrowConstraint.getD .anytime
              state := borrowedBy (entityForControllerFlag controller)
              borrowsCount := 1 }, true) := by
  cases hfields : ResourceManager.borrowRequestPriority resource with
  | none => exact Or.inl (by simp [ResourceManager.borrowBy, hfields])
  | some priority =>
    have hpriority := borrowRequestPriority_priority hfields
    simp only [ResourceManager.borrowBy, hfields]
    split
    · exact Or.inr (Or.inl ⟨by assumption, rfl⟩)
    · rename_i hborrowed
      split
      · exact Or.inl rfl
      · rename_i hheld
        split
        · split
          · exact Or.inl rfl
          · rename_i hcan
            refine Or.inr (Or.inr ⟨priority, hpriority, ?_, ?_, rfl⟩)
            · obtain ⟨state, takeConstraint, borrowConstraint, unborrowConstraint, count⟩ := rm
              cases state <;> cases controller <;>
                simp_all [otherEntity, entityForControllerFlag, ResourceState.fromPair, ownedBy,
                  ResourceManager.owner, ResourceState.owner, ResourceState.isUnclaimed]
            · simpa [ResourceManager.canBorrow] using hcan
        · exact Or.inl rfl

/-- **Unborrow.** It is rejected, or it pays back one borrow of several, or it pays back
the last one and the other party has the resource again, or the actor was not borrowing
and nothing changes. -/
theorem unborrowBy_cases (rm : ResourceManager) (resource : Resource) (controller : Bool) :
    rm.unborrowBy resource controller = (rm, false) ∨
      (rm.state = borrowedBy (entityForControllerFlag controller) ∧ rm.borrowsCount ≤ 1 ∧
        rm.unborrowBy resource controller =
          ({ rm with
              borrowsCount := 0
              state := ownedBy (otherEntity (entityForControllerFlag controller))
              unborrowConstraint := .anytime }, true)) ∨
      (rm.state = borrowedBy (entityForControllerFlag controller) ∧ 1 < rm.borrowsCount ∧
        rm.unborrowBy resource controller =
          ({ rm with borrowsCount := rm.borrowsCount - 1 }, true)) ∨
      (rm.state ≠ borrowedBy (entityForControllerFlag controller) ∧
        rm.unborrowBy resource controller = (rm, true)) := by
  unfold ResourceManager.unborrowBy
  split
  · exact Or.inl rfl
  · by_cases hstate : rm.state = borrowedBy (entityForControllerFlag controller)
    · simp only [borrowedBy] at hstate
      by_cases hlast : rm.borrowsCount ≤ 1
      · have hzero : rm.borrowsCount - 1 = 0 := by omega
        exact Or.inr (Or.inl ⟨hstate, hlast, by simp [hstate, hzero, ownedBy]⟩)
      · have hmore : rm.borrowsCount - 1 ≠ 0 := by omega
        exact Or.inr (Or.inr (Or.inl ⟨hstate, by omega, by simp [hstate, hmore]⟩))
    · simp only [borrowedBy] at hstate
      simp only [hstate, if_false]
      split
      · exact Or.inl rfl
      · exact Or.inr (Or.inr (Or.inr ⟨hstate, rfl⟩))

/-- A request the manager turns down leaves the manager as it was. -/
theorem processRequest_rejected (rm : ResourceManager) (resource : Resource) (controller : Bool)
    (h : (rm.processRequest resource controller).2 = false) :
    (rm.processRequest resource controller).1 = rm := by
  unfold ResourceManager.processRequest at h ⊢
  cases htype : resource.transferType with
  | take =>
    obtain heq | ⟨_, _, _, _, heq, _⟩ := takeBy_cases rm resource controller <;>
      simp_all
  | untake =>
    obtain heq | ⟨_, heq⟩ | ⟨_, heq⟩ := untakeBy_cases rm resource controller <;>
      simp_all
  | borrow =>
    obtain heq | ⟨_, heq⟩ | ⟨_, _, _, _, heq⟩ := borrowBy_cases rm resource controller <;>
      simp_all
  | unborrow =>
    obtain heq | ⟨_, _, heq⟩ | ⟨_, _, heq⟩ | ⟨_, heq⟩ :=
      unborrowBy_cases rm resource controller <;> simp_all

end Catplay.Analysis.Modes.Requests

/-!
## What a `ModesChanged` report does to the resources

A report replaces the manager of each resource it names by a merged one
(`MergedFrom`); the managers of the other resources stay. The file follows this
through the items of a report, the pairing with an accepted request and the queue of
reports that wait for the requests in flight.
-/

namespace Catplay.Analysis.Modes.Reports

open Catplay.Model.Modes Catplay.Model.Modes.ModesArbiter

/-- The reports a call applies: the one it brings unless a request is in flight, and the
queued ones when it answers the last request in flight. -/
def appliedReports (a : ModesArbiter) : Call → List ModesChanged
  | .peerModesChanged modes => if a.inflightPeerChangeModes.isEmpty then [modes] else []
  | .peerChangeModesEnd _ =>
    match a.inflightPeerChangeModes with
    | [] => []
    | _ :: inflight => if inflight.isEmpty then a.pendingPeerModesChanged else []
  | _ => []

/-- The manager is one that the report merges for the resource. -/
def MergedFrom (modes : ModesChanged) (id : ResourceID) (rm : ResourceManager) : Prop :=
  ∃ item ∈ modes.resources, item.resourceId = id ∧ ∃ old acceptedRequest,
    rm = mergePeerResource old (.fromPair item.entity item.permanentEntity) id acceptedRequest

/-- Replacing one manager. -/
@[simp] theorem resource_setResource (rc : ResourceController) (id id' : ResourceID)
    (rm : ResourceManager) :
    (rc.setResource id rm).resource id' = if id' = id then rm else rc.resource id' := by
  cases id <;> cases id' <;> rfl

/-- A merged resource is in the reported state. -/
@[simp] theorem mergePeerResource_state (old : ResourceManager) (newState : ResourceState)
    (id : ResourceID) (acceptedRequest : Option ChangeModes) :
    (mergePeerResource old newState id acceptedRequest).state = newState := by
  unfold mergePeerResource
  split
  · rfl
  · split
    · rfl
    · dsimp only
      split <;> rfl

/-- The application states of a report touch no resource. -/
theorem foldl_applyPeerAppState_resource (rc : ResourceController)
    (appStates : List AppStateChanged) (id : ResourceID) :
    (appStates.foldl applyPeerAppState rc).resource id = rc.resource id := by
  induction appStates generalizing rc with
  | nil => rfl
  | cons appState appStates ih =>
    rw [List.foldl_cons, ih]
    unfold applyPeerAppState
    cases id <;> cases appState.appStateId <;> rfl

/-- After the resource items of a report each resource is as before or merged. -/
theorem foldl_applyPeerResource_resource (a : ModesArbiter) (acceptedRequest : Option ChangeModes)
    (rc : ResourceController) (items : List ResourceChanged) (id : ResourceID) :
    (items.foldl (a.applyPeerResource acceptedRequest) rc).resource id = rc.resource id ∨
      ∃ item ∈ items, item.resourceId = id ∧
        (items.foldl (a.applyPeerResource acceptedRequest) rc).resource id =
          mergePeerResource (a.resource id) (.fromPair item.entity item.permanentEntity) id
            acceptedRequest := by
  induction items generalizing rc with
  | nil => exact Or.inl rfl
  | cons item items ih =>
    rw [List.foldl_cons]
    obtain hsame | ⟨item', hmem, hid, hmerged⟩ := ih (a.applyPeerResource acceptedRequest rc item)
    · by_cases hitem : item.resourceId = id
      · subst hitem
        exact Or.inr ⟨item, List.mem_cons_self, rfl, by rw [hsame]; simp [applyPeerResource]⟩
      · left
        rw [hsame]
        simp [applyPeerResource, Ne.symm hitem]
    · exact Or.inr ⟨item', List.mem_cons_of_mem _ hmem, hid, hmerged⟩

/-- After a report, paired with the oldest accepted request, each resource is as before or
merged from the report. -/
theorem applyWithAccepted_resource (a : ModesArbiter) (modes : ModesChanged) (id : ResourceID) :
    (a.applyWithAccepted modes).resource id = a.resource id ∨
      MergedFrom modes id ((a.applyWithAccepted modes).resource id) := by
  obtain hsame | ⟨item, hmem, hid, hmerged⟩ :=
    foldl_applyPeerResource_resource
      { a with acceptedPeerChangeModes := a.acceptedPeerChangeModes.tail }
      a.acceptedPeerChangeModes.head?
      (modes.appStates.foldl applyPeerAppState a.modes) modes.resources id
  · left
    exact hsame.trans (foldl_applyPeerAppState_resource _ _ _)
  · exact Or.inr ⟨item, hmem, hid, _, _, hmerged⟩

/-- After the queued reports each resource is as before or merged from one of them. -/
theorem drainPending_resource (a : ModesArbiter) (queue : List ModesChanged) (id : ResourceID) :
    (a.drainPending queue).resource id = a.resource id ∨
      ∃ modes ∈ queue, MergedFrom modes id ((a.drainPending queue).resource id) := by
  induction queue generalizing a with
  | nil => exact Or.inl rfl
  | cons modes rest ih =>
    rw [drainPending]
    obtain hsame | ⟨modes', hmem, hmerged⟩ := ih (a.applyWithAccepted modes)
    · rw [hsame]
      obtain happlied | hmerged := applyWithAccepted_resource a modes id
      · exact Or.inl happlied
      · exact Or.inr ⟨modes, List.mem_cons_self, hmerged⟩
    · exact Or.inr ⟨modes', List.mem_cons_of_mem _ hmem, hmerged⟩

/-- The answer to a request in flight moves resources only by the queued reports. -/
theorem onPeerChangeModesEnd_resource (a : ModesArbiter) (resp : ChangeModesResponse)
    (id : ResourceID) :
    (a.onPeerChangeModesEnd resp).resource id = a.resource id ∨
      ∃ modes ∈ appliedReports a (.peerChangeModesEnd resp),
        MergedFrom modes id ((a.onPeerChangeModesEnd resp).resource id) := by
  unfold appliedReports onPeerChangeModesEnd
  cases hinflight : a.inflightPeerChangeModes with
  | nil => exact Or.inl rfl
  | cons request inflight =>
    simp only [drainPendingPeerModesChangedIfIdle]
    by_cases hidle : inflight.isEmpty
    · simp only [hidle, if_true]
      split <;> exact drainPending_resource _ _ id
    · simp only [hidle]
      split <;> exact Or.inl rfl

/-- A report moves resources only when no request is in flight. -/
theorem onPeerModesChanged_resource (a : ModesArbiter) (modes : ModesChanged) (id : ResourceID) :
    (a.onPeerModesChanged modes).resource id = a.resource id ∨
      ∃ modes' ∈ appliedReports a (.peerModesChanged modes),
        MergedFrom modes' id ((a.onPeerModesChanged modes).resource id) := by
  by_cases hidle : a.inflightPeerChangeModes.isEmpty
  · have hcall : a.onPeerModesChanged modes = a.markDirty.applyWithAccepted modes := by
      simp [onPeerModesChanged, markDirty, hidle]
    rw [hcall]
    obtain hsame | hmerged := applyWithAccepted_resource a.markDirty modes id
    · exact Or.inl hsame
    · exact Or.inr ⟨modes, by simp [appliedReports, hidle], hmerged⟩
  · left
    simp [onPeerModesChanged, markDirty, hidle, ModesArbiter.resource]

end Catplay.Analysis.Modes.Reports
