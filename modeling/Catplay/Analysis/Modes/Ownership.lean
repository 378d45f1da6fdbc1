import Catplay.Analysis.Modes.Requests

/-!
# Who may end the use of a resource

The user of a resource is the entity of its manager. A request of one party ends
the other party's use only if its priority satisfies the constraint in force
(`PermittedTransfer`); a party ends its own use by `Untake` or `Unborrow`
(`OwnRelease`). The file proves this request by request on the manager
(`processRequest_user`), lifts it to a whole `ChangeModes` request
(`foldlM_processResource_user`), adds what a `ModesChanged` report does, and
reads off the result over all runs of the arbiter (`call_user`). A report is
the phone's word on the modes and overrides any constraint.
-/

set_option autoImplicit false

namespace Catplay.Analysis.Modes.Ownership

open Catplay.Library.Run Catplay.Model.Modes Catplay.Model.Modes.ModesArbiter
open Catplay.Analysis.Modes.Requests Catplay.Analysis.Modes.Reports
open Catplay.Model.Modes.ResourceManager (entityForControllerFlag otherEntity prioritySatisfies)

/-! ## The vocabulary -/

/-- The current user gives the resource back itself. -/
def OwnRelease (rm : ResourceManager) (actor : EntityEnum) (resource : Resource) : Prop :=
  actor = rm.entity ∧ (resource.transferType = .untake ∨ resource.transferType = .unborrow)

/-- The other party takes or borrows with a priority that satisfies the constraint in force. -/
def PermittedTransfer (rm : ResourceManager) (actor : EntityEnum) (resource : Resource) : Prop :=
  actor = otherEntity rm.entity ∧
    (resource.transferType = .take ∨ resource.transferType = .borrow) ∧
    ∃ priority, resource.transferPriority = some priority ∧
      prioritySatisfies priority (constraintInForce rm resource.transferType)

/-- The permanent owner sends `Untake` while the other party borrows the resource. -/
def OwnerUntakesLent (rm : ResourceManager) (actor : EntityEnum) (resource : Resource) : Prop :=
  resource.transferType = .untake ∧ rm.isBorrowed ∧ actor = rm.owner

/-- The requests on single resources that a call puts to the managers, with their party. -/
def requests : Call → List (EntityEnum × Resource)
  | .carRequest request => request.resources.map fun resource => (.accessory, resource)
  | .controllerRequest resource => [(.controller, resource)]
  | .trySteal p => [(.controller, .take .mainScreen p .anytime .anytime)]
  | .peerChangeModesStart _ | .peerChangeModesEnd _ | .peerModesChanged _ => []

/-- The report has an item that puts the resource in this state. -/
def ReportedState (modes : ModesChanged) (id : ResourceID) (state : ResourceState) : Prop :=
  ∃ item ∈ modes.resources, item.resourceId = id ∧
    state = ResourceState.fromPair item.entity item.permanentEntity

/-- The user of `id` stops being its user in this call. -/
def UserLeaves (a : ModesArbiter) (c : Call) (id : ResourceID) : Prop :=
  (a.resource id).entity ≠ .none ∧ ((a.call c).resource id).entity ≠ (a.resource id).entity

/-- Some request of the call is the user's own release or a permitted transfer. -/
def EndedByRight (a : ModesArbiter) (c : Call) (id : ResourceID) : Prop :=
  ∃ q ∈ requests c, q.2.resourceId = id ∧
    (OwnRelease (a.resource id) q.1 q.2 ∨ PermittedTransfer (a.resource id) q.1 q.2)

/-- Some request of the call is the owner's `Untake` of a resource the other party borrows. -/
def EndedByOwnerUntake (a : ModesArbiter) (c : Call) (id : ResourceID) : Prop :=
  ∃ q ∈ requests c, q.2.resourceId = id ∧ OwnerUntakesLent (a.resource id) q.1 q.2

/-- A report the call applies puts the resource in its new state. -/
def EndedByReport (a : ModesArbiter) (c : Call) (id : ResourceID) : Prop :=
  ∃ modes ∈ appliedReports a c, ReportedState modes id ((a.call c).resource id).state

/-- A request the manager turns down leaves every resource as it was. -/
def RejectionKeepsState (a : ModesArbiter) : Call → Prop
  | .carRequest request =>
    (a.processCarRequest request).2.status ≠ 0 → (a.processCarRequest request).1.modes = a.modes
  | .controllerRequest resource =>
    (a.processControllerRequest resource).2 = false →
      (a.processControllerRequest resource).1.modes = a.modes
  | _ => True

/-! ## One request on one manager -/

/-- The two parties are each other's other party. -/
theorem entity_eq_or_other (rm : ResourceManager) (controller : Bool) (h : rm.entity ≠ .none) :
    rm.entity = entityForControllerFlag controller ∨
      rm.entity = otherEntity (entityForControllerFlag controller) := by
  cases hentity : rm.entity <;> cases controller <;>
    simp_all [otherEntity, entityForControllerFlag]

/-- **The user of a resource after one request.** If the user stops being it, then by its
own release, by a permitted transfer, or because the owner untook a lent resource. -/
theorem processRequest_user (rm : ResourceManager) (resource : Resource) (controller : Bool)
    (huser : rm.entity ≠ .none)
    (hleft : (rm.processRequest resource controller).1.entity ≠ rm.entity) :
    OwnRelease rm (entityForControllerFlag controller) resource ∨
      PermittedTransfer rm (entityForControllerFlag controller) resource ∨
      OwnerUntakesLent rm (entityForControllerFlag controller) resource := by
  have hother := entity_eq_or_other rm controller huser
  unfold ResourceManager.processRequest at hleft
  cases htype : resource.transferType with
  | take =>
    simp only [htype] at hleft
    obtain heq | ⟨priority, take, borrow, hpriority, heq, hforce⟩ :=
      takeBy_cases rm resource controller
    · simp [heq] at hleft
    · obtain hself | hother := hother
      · rw [heq] at hleft
        exact absurd ((entity_ownedBy controller).trans hself.symm) hleft
      · refine Or.inr (Or.inl ⟨?_, Or.inl htype, priority, hpriority, ?_⟩)
        · rw [hother, otherEntity_otherEntity]
        · rw [htype]
          exact hforce hother
  | untake =>
    simp only [htype] at hleft
    obtain heq | ⟨howner, heq⟩ | ⟨_, heq⟩ := untakeBy_cases rm resource controller
    · simp [heq] at hleft
    · by_cases hborrowed : rm.isBorrowed
      · exact Or.inr (Or.inr ⟨htype, hborrowed, howner.symm⟩)
      · refine Or.inl ⟨?_, Or.inl htype⟩
        rw [← howner, owner_eq_entity hborrowed]
    · simp [heq] at hleft
  | borrow =>
    simp only [htype] at hleft
    obtain heq | ⟨_, heq⟩ | ⟨priority, hpriority, hstate, hforce, heq⟩ :=
      borrowBy_cases rm resource controller
    · simp [heq] at hleft
    · simp [heq, ResourceManager.entity] at hleft
    · have hlent := lendable_entity hstate huser
      refine Or.inr (Or.inl ⟨?_, Or.inr htype, priority, hpriority, ?_⟩)
      · rw [hlent.1, otherEntity_otherEntity]
      · simpa [constraintInForce, hlent.2, htype] using hforce
  | unborrow =>
    simp only [htype] at hleft
    obtain heq | ⟨hstate, _, heq⟩ | ⟨_, _, heq⟩ | ⟨_, heq⟩ :=
      unborrowBy_cases rm resource controller
    · simp [heq] at hleft
    · refine Or.inl ⟨?_, Or.inr htype⟩
      rw [ResourceManager.entity, hstate, entity_borrowedBy]
    · simp [heq, ResourceManager.entity] at hleft
    · simp [heq] at hleft

/-- A request that leaves the other party its use leaves the whole manager as it was. -/
theorem processRequest_keeps (rm : ResourceManager) (resource : Resource) (controller : Bool)
    (huser : rm.entity = otherEntity (entityForControllerFlag controller))
    (hkept : (rm.processRequest resource controller).1.entity = rm.entity) :
    (rm.processRequest resource controller).1 = rm := by
  have hne : otherEntity (entityForControllerFlag controller) ≠
      entityForControllerFlag controller := by
    cases controller <;> decide
  have hnone : otherEntity (entityForControllerFlag controller) ≠ .none := by
    cases controller <;> decide
  have hnotBorrowing : rm.state ≠ borrowedBy (entityForControllerFlag controller) := by
    intro hstate
    rw [ResourceManager.entity, hstate, entity_borrowedBy] at huser
    exact hne huser.symm
  unfold ResourceManager.processRequest at hkept ⊢
  cases htype : resource.transferType with
  | take =>
    simp only [htype] at hkept ⊢
    obtain heq | ⟨_, _, _, _, heq, _⟩ := takeBy_cases rm resource controller
    · simp [heq]
    · rw [heq, huser] at hkept
      exact absurd (hkept.symm.trans (entity_ownedBy controller)) hne
  | untake =>
    simp only [htype] at hkept ⊢
    obtain heq | ⟨_, heq⟩ | ⟨_, heq⟩ := untakeBy_cases rm resource controller
    · simp [heq]
    · rw [heq, huser] at hkept
      exact absurd hkept.symm hnone
    · simp [heq]
  | borrow =>
    simp only [htype] at hkept ⊢
    obtain heq | ⟨hstate, _⟩ | ⟨_, _, _, _, heq⟩ := borrowBy_cases rm resource controller
    · simp [heq]
    · exact absurd hstate hnotBorrowing
    · rw [heq, huser, ResourceManager.entity, entity_borrowedBy] at hkept
      exact absurd hkept.symm hne
  | unborrow =>
    simp only [htype] at hkept ⊢
    obtain heq | ⟨hstate, _⟩ | ⟨hstate, _⟩ | ⟨_, heq⟩ := unborrowBy_cases rm resource controller
    · simp [heq]
    · exact absurd hstate hnotBorrowing
    · exact absurd hstate hnotBorrowing
    · simp [heq]

/-- Whoever uses the resource cannot be the owner that lent it. -/
theorem ownerUntakesLent_user {rm : ResourceManager} {actor : EntityEnum} {resource : Resource}
    (huser : rm.entity = actor) : ¬ OwnerUntakesLent rm actor resource := by
  rintro ⟨-, hborrowed, howner⟩
  obtain ⟨state, _, _, _, _⟩ := rm
  subst huser
  cases state <;> simp_all [ResourceManager.isBorrowed, ResourceState.isBorrowed,
    ResourceManager.owner, ResourceState.owner, ResourceManager.entity, ResourceState.entity]

/-! ## A `ChangeModes` request of the car -/

/-- An application state of a request touches no resource. -/
theorem processAppState_resource {rc rc' : ResourceController} {appState : AppState}
    (h : rc.processAppState appState = some rc') (id : ResourceID) :
    rc'.resource id = rc.resource id := by
  have hmanagers : rc'.screen = rc.screen ∧ rc'.mainAudio = rc.mainAudio := by
    obtain ⟨appStateId, state, speechMode⟩ := appState
    unfold ResourceController.processAppState at h
    cases appStateId with
    | speech => cases speechMode <;> grind
    | phoneCall => cases state <;> grind
    | turnByTurn => cases state <;> grind
    | invalid => cases h
  cases id with
  | mainScreen => exact hmanagers.1
  | mainAudio => exact hmanagers.2

/-- Nor does the list of application states. -/
theorem foldlM_processAppState_resource {rc rc' : ResourceController} {appStates : List AppState}
    (h : appStates.foldlM ResourceController.processAppState rc = some rc') (id : ResourceID) :
    rc'.resource id = rc.resource id := by
  induction appStates generalizing rc with
  | nil =>
    obtain rfl := Option.some.inj h
    rfl
  | cons appState appStates ih =>
    simp only [List.foldlM_cons, Option.bind_eq_bind, Option.bind_eq_some_iff] at h
    obtain ⟨next, hnext, hrest⟩ := h
    rw [ih hrest, processAppState_resource hnext]

/-- The first item of an accepted request is accepted, and the others follow on its result. -/
theorem processResource_cons {rc rc' : ResourceController} {item : Resource}
    {items : List Resource}
    (h : (item :: items).foldlM ResourceController.processResource rc = some rc') :
    ((rc.resource item.resourceId).processRequest item false).2 = true ∧
      items.foldlM ResourceController.processResource
        (rc.setResource item.resourceId
          ((rc.resource item.resourceId).processRequest item false).1) = some rc' := by
  simp only [List.foldlM_cons, Option.bind_eq_bind, Option.bind_eq_some_iff] at h
  obtain ⟨next, hnext, hrest⟩ := h
  simp only [ResourceController.processResource] at hnext
  split at hnext
  · rename_i haccepted
    obtain rfl := Option.some.inj hnext
    exact ⟨haccepted, hrest⟩
  · cases hnext

/-- **The user of a resource over the items of a car request.** The item that ends a use
is judged by the manager from before the whole request: until then the manager of a
resource the phone uses does not change, and the car's own release needs its use only. -/
theorem foldlM_processResource_user {rc rc' : ResourceController} {resources : List Resource}
    (h : resources.foldlM ResourceController.processResource rc = some rc') (id : ResourceID)
    (huser : (rc.resource id).entity ≠ .none)
    (hleft : (rc'.resource id).entity ≠ (rc.resource id).entity) :
    ∃ resource ∈ resources, resource.resourceId = id ∧
      (OwnRelease (rc.resource id) .accessory resource ∨
        PermittedTransfer (rc.resource id) .accessory resource ∨
        OwnerUntakesLent (rc.resource id) .accessory resource) := by
  induction resources generalizing rc with
  | nil =>
    obtain rfl := Option.some.inj h
    exact absurd rfl hleft
  | cons item items ih =>
    obtain ⟨-, hrest⟩ := processResource_cons h
    by_cases hitem : item.resourceId = id
    · subst hitem
      by_cases hkept : ((rc.resource item.resourceId).processRequest item false).1.entity =
          (rc.resource item.resourceId).entity
      · obtain ⟨resource, hmem, hid, hended⟩ :=
          ih hrest (by simpa [hkept] using huser) (by simpa [hkept] using hleft)
        refine ⟨resource, List.mem_cons_of_mem _ hmem, hid, ?_⟩
        simp only [resource_setResource, if_true] at hended
        obtain hcar | hphone := entity_eq_or_other (rc.resource item.resourceId) false huser
        · -- the car uses it, and only its own release can follow
          obtain hrelease | htransfer | huntake := hended
          · exact Or.inl ⟨hrelease.1.trans hkept, hrelease.2⟩
          · exact absurd (htransfer.1.trans (congrArg otherEntity (hkept.trans hcar)))
              (by decide)
          · exact absurd huntake (ownerUntakesLent_user (hkept.trans hcar))
        · rwa [processRequest_keeps _ item false hphone hkept] at hended
      · exact ⟨item, List.mem_cons_self, rfl,
          processRequest_user (rc.resource item.resourceId) item false huser hkept⟩
    · have hsame : (rc.setResource item.resourceId
          ((rc.resource item.resourceId).processRequest item false).1).resource id =
          rc.resource id := by
        simp [Ne.symm hitem]
      obtain ⟨resource, hmem, hid, hended⟩ :=
        ih hrest (by rwa [hsame]) (by rwa [hsame])
      exact ⟨resource, List.mem_cons_of_mem _ hmem, hid, by rwa [hsame] at hended⟩

/-- The status of a rejection is not the status of success. -/
theorem error_status_ne_zero : (ChangeModesResponse.error 1).status ≠ 0 := by
  decide

/-- **A whole car request.** It is answered with an error and changes nothing, or all its
items are accepted one after another. -/
theorem processCarRequest_cases (a : ModesArbiter) (request : ChangeModes) :
    ((a.processCarRequest request).2.status ≠ 0 ∧
        (a.processCarRequest request).1.modes = a.modes) ∨
      ∃ next, request.appStates.foldlM ResourceController.processAppState a.modes = some next ∧
        request.resources.foldlM ResourceController.processResource next =
          some (a.processCarRequest request).1.modes ∧
        (a.processCarRequest request).2.status = 0 := by
  simp only [processCarRequest, ResourceController.processRequestToResponse,
    ResourceController.processRequest]
  cases request.appStates.foldlM ResourceController.processAppState a.modes with
  | none => exact Or.inl ⟨error_status_ne_zero, rfl⟩
  | some next =>
    dsimp only
    cases hres : request.resources.foldlM ResourceController.processResource next with
    | none => exact Or.inl ⟨error_status_ne_zero, rfl⟩
    | some final => exact Or.inr ⟨next, rfl, hres, rfl⟩

/-- A car request that is answered with an error changes no resource and no application
state. -/
theorem processCarRequest_rejected (a : ModesArbiter) (request : ChangeModes)
    (h : (a.processCarRequest request).2.status ≠ 0) :
    (a.processCarRequest request).1.modes = a.modes := by
  obtain ⟨-, hsame⟩ | ⟨next, -, -, hstatus⟩ := processCarRequest_cases a request
  · exact hsame
  · exact absurd hstatus h

/-- Over a whole car request the user leaves by one of its items. -/
theorem processCarRequest_user (a : ModesArbiter) (request : ChangeModes) (id : ResourceID)
    (huser : (a.resource id).entity ≠ .none)
    (hleft : ((a.processCarRequest request).1.resource id).entity ≠ (a.resource id).entity) :
    ∃ resource ∈ request.resources, resource.resourceId = id ∧
      (OwnRelease (a.resource id) .accessory resource ∨
        PermittedTransfer (a.resource id) .accessory resource ∨
        OwnerUntakesLent (a.resource id) .accessory resource) := by
  unfold ModesArbiter.resource at huser hleft ⊢
  obtain ⟨-, hsame⟩ | ⟨next, happ, hres, -⟩ := processCarRequest_cases a request
  · rw [hsame] at hleft
    exact absurd rfl hleft
  · have hnext := foldlM_processAppState_resource happ id
    have hended := foldlM_processResource_user hres id (by rwa [hnext]) (by rwa [hnext])
    rwa [hnext] at hended

/-! ## One call, and all runs -/

/-- Taking the screen back moves the screen only, and only by the `Take` it puts to it. -/
theorem trySteal_user (a : ModesArbiter) (p : ResourceTransferPriority) (id : ResourceID)
    (hleft : ((a.trySteal p).resource id).entity ≠ (a.resource id).entity) :
    id = .mainScreen ∧
      ((a.resource .mainScreen).processRequest (.take .mainScreen p .anytime .anytime) true).1.entity
        ≠ (a.resource .mainScreen).entity := by
  have hmodes : (a.trySteal p).modes = a.modes ∨
      (a.trySteal p).modes = a.modes.setResource .mainScreen
        (a.modes.screen.takeBy (.take .mainScreen p .anytime .anytime) true).1 := by
    unfold trySteal
    split
    · exact Or.inl rfl
    · split
      · dsimp only
        split <;> exact Or.inr rfl
      · exact Or.inl rfl
  simp only [ModesArbiter.resource] at hleft ⊢
  obtain hsame | htaken := hmodes
  · exact absurd (by rw [hsame]) hleft
  · rw [htaken, resource_setResource] at hleft
    split at hleft
    · rename_i hid
      subst hid
      exact ⟨rfl, hleft⟩
    · exact absurd rfl hleft

/-- A resource that a report has merged is in a state the report names. -/
theorem endedByReport_of_merged {a : ModesArbiter} {c : Call} {id : ResourceID}
    (h : ∃ modes ∈ appliedReports a c, MergedFrom modes id ((a.call c).resource id)) :
    EndedByReport a c id := by
  obtain ⟨modes, hmem, item, hitem, hid, old, acceptedRequest, hmerged⟩ := h
  refine ⟨modes, hmem, item, hitem, hid, ?_⟩
  rw [hmerged, mergePeerResource_state]

/-- **The user of a resource over one call.** -/
theorem call_user (a : ModesArbiter) (c : Call) (id : ResourceID) (h : UserLeaves a c id) :
    EndedByRight a c id ∨ EndedByOwnerUntake a c id ∨ EndedByReport a c id := by
  obtain ⟨huser, hleft⟩ := h
  cases c with
  | carRequest request =>
    obtain ⟨resource, hmem, hid, hended⟩ := processCarRequest_user a request id huser hleft
    have hq : (EntityEnum.accessory, resource) ∈ requests (.carRequest request) :=
      List.mem_map_of_mem hmem
    obtain hrelease | htransfer | huntake := hended
    · exact Or.inl ⟨_, hq, hid, Or.inl hrelease⟩
    · exact Or.inl ⟨_, hq, hid, Or.inr htransfer⟩
    · exact Or.inr (Or.inl ⟨_, hq, hid, huntake⟩)
  | controllerRequest resource =>
    have hq : (EntityEnum.controller, resource) ∈ requests (.controllerRequest resource) :=
      List.mem_singleton_self _
    have hid : resource.resourceId = id := by
      by_contra hne
      exact hleft (by simp [call, processControllerRequest, ModesArbiter.resource, Ne.symm hne])
    subst hid
    have hchanged : ((a.resource resource.resourceId).processRequest resource true).1.entity ≠
        (a.resource resource.resourceId).entity := by
      simpa [call, processControllerRequest, ModesArbiter.resource,
        ResourceManager.processControllerRequest] using hleft
    obtain hrelease | htransfer | huntake := processRequest_user _ resource true huser hchanged
    · exact Or.inl ⟨_, hq, rfl, Or.inl hrelease⟩
    · exact Or.inl ⟨_, hq, rfl, Or.inr htransfer⟩
    · exact Or.inr (Or.inl ⟨_, hq, rfl, huntake⟩)
  | trySteal p =>
    obtain ⟨hid, hchanged⟩ := trySteal_user a p id hleft
    subst hid
    have hq : (EntityEnum.controller, Resource.take .mainScreen p .anytime .anytime) ∈
        requests (.trySteal p) :=
      List.mem_singleton_self _
    obtain hrelease | htransfer | huntake := processRequest_user _ _ true huser hchanged
    · exact Or.inl ⟨_, hq, rfl, Or.inl hrelease⟩
    · exact Or.inl ⟨_, hq, rfl, Or.inr htransfer⟩
    · exact Or.inr (Or.inl ⟨_, hq, rfl, huntake⟩)
  | peerChangeModesStart modes => exact absurd rfl hleft
  | peerChangeModesEnd resp =>
    obtain hsame | hmerged := onPeerChangeModesEnd_resource a resp id
    · exact absurd (congrArg ResourceManager.entity hsame) hleft
    · exact Or.inr (Or.inr (endedByReport_of_merged hmerged))
  | peerModesChanged modes =>
    obtain hsame | hmerged := onPeerModesChanged_resource a modes id
    · exact absurd (congrArg ResourceManager.entity hsame) hleft
    · exact Or.inr (Or.inr (endedByReport_of_merged hmerged))

/-- Requests that are turned down change nothing. -/
theorem rejectionKeepsState (a : ModesArbiter) (c : Call) : RejectionKeepsState a c := by
  cases c with
  | carRequest request => exact processCarRequest_rejected a request
  | controllerRequest resource =>
    intro hrejected
    have hsame := processRequest_rejected (a.resource resource.resourceId) resource true hrejected
    simp only [processControllerRequest, ResourceManager.processControllerRequest, hsame]
    cases resource.resourceId <;> rfl
  | _ => trivial

/-- **No usurpation.** In every run of the arbiter the user of a resource stops being it
only by its own release, by a permitted transfer of the other party, by the owner's
`Untake` of a lent resource, or by a report of the phone; and a request that is turned
down changes nothing. -/
theorem no_usurpation (info : ChangeModes) (calls : List Call) :
    AllSteps step (fun a c =>
      (∀ id, UserLeaves a c id →
        EndedByRight a c id ∨ EndedByOwnerUntake a c id ∨ EndedByReport a c id) ∧
      RejectionKeepsState a c) (new info) calls :=
  allSteps_of_mem (fun c _ a => ⟨call_user a c, rejectionKeepsState a c⟩) _

/-- A report overrides the constraints: the car has taken the screen and lets nobody take
or borrow it, and a report that the phone owns it ends the car's use. -/
theorem report_ends_protected_use :
    ¬ ∀ (info : ChangeModes) (calls : List Call),
      AllSteps step (fun a c =>
        (∀ id, UserLeaves a c id → EndedByRight a c id) ∧ RejectionKeepsState a c)
        (new info) calls := by
  intro h
  have hrun := h ⟨[], [], []⟩
    [.carRequest ⟨[], [.take .mainScreen .userInitiated .never .never], []⟩,
      .peerModesChanged ⟨[], [⟨.mainScreen, .controller, .controller⟩]⟩]
  have hreport := (hrun.2 _ rfl).1.1 .mainScreen ⟨by decide, by decide⟩
  simp [EndedByRight, requests] at hreport

end Catplay.Analysis.Modes.Ownership
