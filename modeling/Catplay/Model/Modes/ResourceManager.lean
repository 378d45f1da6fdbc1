import Mathlib.Data.UInt

/-!
# CarPlay modes: requests, resource states and the resource manager

The two parties of a CarPlay session, the phone (`Controller`) and the head unit
(`Accessory`), share the screen and the main audio. A resource has a permanent
owner and a current user; a party takes or gives back ownership with
`Take`/`Untake` and borrows the resource for a while with `Borrow`/`Unborrow`.
This file embeds `carplay/catplay_carplay/src/modes`: the message types of
`change_modes.rs` and `modes_changed.rs`, the `ResourceState` of
`modes_changed_ext.rs`, the `ResourceTransaction` of `transaction.rs` and the
`ResourceManager` and `ResourceController` of `resource_manager.rs`.
Operations that return `bool` on `&mut self` return the new value and the flag.
-/

set_option autoImplicit false

namespace Catplay.Model.Modes

/-! ## Messages -/

inductive EntityEnum
  | none
  | controller
  | accessory
  deriving DecidableEq, Repr

inductive AppStateEnum
  | invalid
  | speech
  | phoneCall
  | turnByTurn
  deriving DecidableEq, Repr

inductive SpeechMode
  | invalid
  | none
  | speaking
  | recognizingSpeech
  deriving DecidableEq, Repr

inductive ResourceID
  | mainScreen
  | mainAudio
  deriving DecidableEq, Repr

inductive ResourceTransferType
  | take
  | untake
  | borrow
  | unborrow
  deriving DecidableEq, Repr

inductive ResourceTransferPriority
  | niceToHave
  | userInitiated
  deriving DecidableEq, Repr

inductive ResourceConstraint
  | anytime
  | userInitiated
  | never
  deriving DecidableEq, Repr

/-- One resource item of a `ChangeModes` request. -/
structure Resource where
  resourceId : ResourceID
  transferType : ResourceTransferType
  transferPriority : Option ResourceTransferPriority
  takeConstraint : Option ResourceConstraint
  borrowConstraint : Option ResourceConstraint
  unborrowConstraint : Option ResourceConstraint
  deriving DecidableEq, Repr

namespace Resource

def unborrow (resource : ResourceID) : Resource :=
  ⟨resource, .unborrow, none, none, none, none⟩

def untake (resource : ResourceID) : Resource :=
  ⟨resource, .untake, none, none, none, none⟩

def borrow (resource : ResourceID) (priority : ResourceTransferPriority)
    (unborrow : ResourceConstraint) : Resource :=
  ⟨resource, .borrow, some priority, none, none, some unborrow⟩

def take (resource : ResourceID) (priority : ResourceTransferPriority)
    (take borrow : ResourceConstraint) : Resource :=
  ⟨resource, .take, some priority, some take, some borrow, none⟩

end Resource

/-- One application state of a `ChangeModes` request. -/
structure AppState where
  appStateId : AppStateEnum
  state : Option Bool
  speechMode : Option SpeechMode
  deriving DecidableEq, Repr

structure InitialPermanentEntity where
  permanentEntity : EntityEnum
  resourceId : ResourceID
  takeConstraint : Option ResourceConstraint
  borrowConstraint : Option ResourceConstraint
  deriving DecidableEq, Repr

structure ChangeModes where
  appStates : List AppState
  resources : List Resource
  initialPermanentEntity : List InitialPermanentEntity
  deriving DecidableEq, Repr

structure AppStateChanged where
  appStateId : AppStateEnum
  entity : EntityEnum
  speechMode : Option SpeechMode
  deriving DecidableEq, Repr

structure ResourceChanged where
  resourceId : ResourceID
  entity : EntityEnum
  permanentEntity : EntityEnum
  deriving DecidableEq, Repr

structure ModesChanged where
  appStates : List AppStateChanged
  resources : List ResourceChanged
  deriving DecidableEq, Repr

structure ChangeModesResponse where
  status : UInt8
  params : Option ModesChanged
  deriving DecidableEq, Repr

namespace ChangeModesResponse

def new (params : ModesChanged) : ChangeModesResponse := ⟨0, some params⟩

def error (status : UInt8) : ChangeModesResponse := ⟨status, none⟩

end ChangeModesResponse

structure SpeechState where
  entity : EntityEnum
  mode : SpeechMode
  deriving DecidableEq, Repr

def SpeechState.default : SpeechState := ⟨.none, .none⟩

/-! ## The state of one resource -/

inductive ResourceState
  | controllerHas
  | accessoryHas
  | controllerBorrowed
  | accessoryBorrowed
  /-- Invalid state or unclaimed by either side. -/
  | invalid
  deriving DecidableEq, Repr

namespace ResourceState

/-- The state read off the current user and the permanent owner. -/
def fromPair (entity permanentEntity : EntityEnum) : ResourceState :=
  match entity, permanentEntity with
  | .controller, .controller => .controllerHas
  | .accessory, .accessory => .accessoryHas
  | .controller, .accessory => .controllerBorrowed
  | .accessory, .controller => .accessoryBorrowed
  | _, _ => .invalid

def toPair : ResourceState → EntityEnum × EntityEnum
  | .controllerHas => (.controller, .controller)
  | .accessoryHas => (.accessory, .accessory)
  | .controllerBorrowed => (.controller, .accessory)
  | .accessoryBorrowed => (.accessory, .controller)
  | .invalid => (.controller, .controller)

def isBorrowed : ResourceState → Bool
  | .controllerBorrowed | .accessoryBorrowed => true
  | _ => false

/-- Current entity allowed to use the resource. -/
def entity : ResourceState → EntityEnum
  | .accessoryBorrowed | .accessoryHas => .accessory
  | .controllerBorrowed | .controllerHas => .controller
  | .invalid => .none

/-- Permanent owner of the resource. -/
def owner : ResourceState → EntityEnum
  | .controllerHas | .accessoryBorrowed => .controller
  | .accessoryHas | .controllerBorrowed => .accessory
  | .invalid => .none

def isUnclaimed : ResourceState → Bool
  | .invalid => true
  | _ => false

end ResourceState

/-! ## The resource manager -/

/-- The largest `usize` of a 64-bit target; `borrows_count` saturates there. -/
def usizeMax : Nat := 2 ^ 64 - 1

structure ResourceManager where
  state : ResourceState
  takeConstraint : ResourceConstraint
  borrowConstraint : ResourceConstraint
  unborrowConstraint : ResourceConstraint
  borrowsCount : Nat
  deriving DecidableEq, Repr

inductive ResourcePermanentEntity
  | controller
  | accessory (takeConstraint borrowConstraint : ResourceConstraint)
  deriving DecidableEq, Repr

inductive ResourceTransaction
  | take (priority : ResourceTransferPriority)
      (takeConstraint borrowConstraint : ResourceConstraint)
  | untake
  | borrow (priority : ResourceTransferPriority) (unborrowConstraint : ResourceConstraint)
  | unborrow
  deriving DecidableEq, Repr

namespace ResourceManager

def new (state : ResourceState) (takeConstraint borrowConstraint : ResourceConstraint) :
    ResourceManager :=
  { state, takeConstraint, borrowConstraint, unborrowConstraint := .anytime, borrowsCount := 0 }

def withUnborrowConstraint (self : ResourceManager) (unborrowConstraint : ResourceConstraint) :
    ResourceManager :=
  { self with unborrowConstraint }

def controllerOwned : ResourceManager := new .controllerHas .anytime .anytime

def accessoryOwned (takeConstraint borrowConstraint : ResourceConstraint) : ResourceManager :=
  new .accessoryHas takeConstraint borrowConstraint

def unclaimed : ResourceManager := new .invalid .anytime .anytime

def fromPermanentEntity : ResourcePermanentEntity → ResourceManager
  | .controller => controllerOwned
  | .accessory takeConstraint borrowConstraint => accessoryOwned takeConstraint borrowConstraint

def isBorrowed (self : ResourceManager) : Bool := self.state.isBorrowed

def isUnclaimed (self : ResourceManager) : Bool := self.state.isUnclaimed

def owner (self : ResourceManager) : EntityEnum := self.state.owner

def entity (self : ResourceManager) : EntityEnum := self.state.entity

def applyInitialTransaction (self : ResourceManager) :
    Option ResourceTransaction → ResourceManager
  | some (.take _ takeConstraint borrowConstraint) => accessoryOwned takeConstraint borrowConstraint
  | some (.borrow _ unborrowConstraint) =>
    if self.owner = .controller ∨ self.isUnclaimed then
      { self with state := .accessoryBorrowed, unborrowConstraint, borrowsCount := 1 }
    else self
  | some .untake | some .unborrow | none => self

def prioritySatisfies (priority : ResourceTransferPriority) : ResourceConstraint → Bool
  | .anytime => true
  | .userInitiated => priority == .userInitiated
  | .never => false

/-- Can the other party take the resource from the current user. -/
def canTake (self : ResourceManager) (priority : ResourceTransferPriority) : Bool :=
  prioritySatisfies priority
    (if self.state.isBorrowed then self.unborrowConstraint else self.takeConstraint)

/-- Can the other party borrow the resource from the current user. -/
def canBorrow (self : ResourceManager) (priority : ResourceTransferPriority) : Bool :=
  prioritySatisfies priority self.borrowConstraint

def entityForControllerFlag (controller : Bool) : EntityEnum :=
  if controller then .controller else .accessory

def otherEntity : EntityEnum → EntityEnum
  | .controller => .accessory
  | .accessory => .controller
  | .none => .none

def takeRequestFields (resource : Resource) :
    Option (ResourceTransferPriority × ResourceConstraint × ResourceConstraint) := do
  let priority ← resource.transferPriority
  let takeConstraint ← resource.takeConstraint
  let borrowConstraint ← resource.borrowConstraint
  return (priority, takeConstraint, borrowConstraint)

def borrowRequestPriority (resource : Resource) : Option ResourceTransferPriority :=
  if resource.takeConstraint.isSome || resource.borrowConstraint.isSome
      || resource.unborrowConstraint.isNone then none
  else resource.transferPriority

def releaseRequestFieldsAreEmpty (resource : Resource) : Bool :=
  resource.transferPriority.isNone && resource.takeConstraint.isNone
    && resource.borrowConstraint.isNone && resource.unborrowConstraint.isNone

def takeBy (self : ResourceManager) (resource : Resource) (controller : Bool) :
    ResourceManager × Bool :=
  match takeRequestFields resource with
  | none => (self, false)
  | some (priority, takeConstraint, borrowConstraint) =>
    let actor := entityForControllerFlag controller
    let other := otherEntity actor
    let actorHas := ResourceState.fromPair actor actor
    let actorBorrowed := ResourceState.fromPair actor other
    let otherBorrowed := ResourceState.fromPair other actor
    if self.state = otherBorrowed ∧ ¬ prioritySatisfies priority self.unborrowConstraint then
      (self, false)
    else if (self.state ≠ actorHas ∧ self.state ≠ otherBorrowed)
        ∧ (self.state = actorBorrowed ∨ self.owner = other ∨ self.state.isUnclaimed)
        ∧ ¬ prioritySatisfies priority self.takeConstraint then
      (self, false)
    else (new actorHas takeConstraint borrowConstraint, true)

def untakeBy (self : ResourceManager) (resource : Resource) (controller : Bool) :
    ResourceManager × Bool :=
  if ¬ releaseRequestFieldsAreEmpty resource then (self, false)
  else if self.owner = entityForControllerFlag controller then (unclaimed, true)
  else (self, true)

def borrowBy (self : ResourceManager) (resource : Resource) (controller : Bool) :
    ResourceManager × Bool :=
  match borrowRequestPriority resource with
  | none => (self, false)
  | some priority =>
    let actor := entityForControllerFlag controller
    let other := otherEntity actor
    let actorHas := ResourceState.fromPair actor actor
    let actorBorrowed := ResourceState.fromPair actor other
    let otherBorrowed := ResourceState.fromPair other actor
    if self.state = actorBorrowed then
      ({ self with borrowsCount := min (self.borrowsCount + 1) usizeMax }, true)
    else if self.state = actorHas ∨ self.state = otherBorrowed then (self, false)
    else if self.owner = other ∨ self.state.isUnclaimed then
      if ¬ self.canBorrow priority then (self, false)
      else
        ({ self with
            unborrowConstraint := resource.unborrowConstraint.getD .anytime
            state := actorBorrowed
            borrowsCount := 1 }, true)
    else (self, false)

def unborrowBy (self : ResourceManager) (resource : Resource) (controller : Bool) :
    ResourceManager × Bool :=
  if ¬ releaseRequestFieldsAreEmpty resource then (self, false)
  else
    let actor := entityForControllerFlag controller
    let other := otherEntity actor
    let actorBorrowed := ResourceState.fromPair actor other
    let otherHas := ResourceState.fromPair other other
    let otherBorrowed := ResourceState.fromPair other actor
    if self.state = actorBorrowed then
      let borrowsCount := self.borrowsCount - 1
      if borrowsCount = 0 then
        ({ self with borrowsCount, state := otherHas, unborrowConstraint := .anytime }, true)
      else ({ self with borrowsCount }, true)
    else if self.state = otherBorrowed then (self, false)
    else (self, true)

/-- One request of either party: `process_controller_request` and
`process_accessory_request` differ in the flag only. -/
def processRequest (self : ResourceManager) (resource : Resource) (controller : Bool) :
    ResourceManager × Bool :=
  match resource.transferType with
  | .take => self.takeBy resource controller
  | .untake => self.untakeBy resource controller
  | .borrow => self.borrowBy resource controller
  | .unborrow => self.unborrowBy resource controller

def processAccessoryRequest (self : ResourceManager) (resource : Resource) :
    ResourceManager × Bool :=
  self.processRequest resource false

def processControllerRequest (self : ResourceManager) (resource : Resource) :
    ResourceManager × Bool :=
  self.processRequest resource true

end ResourceManager

/-! ## Transactions -/

def ResourcePermanentEntity.fromInitialPermanentEntity (initial : InitialPermanentEntity) :
    Option ResourcePermanentEntity :=
  match initial.permanentEntity with
  | .accessory => some (.accessory (initial.takeConstraint.getD .anytime)
      (initial.borrowConstraint.getD .anytime))
  | .controller => some .controller
  | .none => none

def ResourceTransaction.fromResource (resource : Resource) : ResourceTransaction :=
  match resource.transferType with
  | .take => .take (resource.transferPriority.getD .niceToHave)
      (resource.takeConstraint.getD .anytime) (resource.borrowConstraint.getD .anytime)
  | .untake => .untake
  | .borrow => .borrow (resource.transferPriority.getD .niceToHave)
      (resource.unborrowConstraint.getD .anytime)
  | .unborrow => .unborrow

structure AirPlayModeTransaction where
  screen : Option ResourceTransaction := none
  screenPerm : Option ResourcePermanentEntity := none
  mainAudio : Option ResourceTransaction := none
  mainAudioPerm : Option ResourcePermanentEntity := none
  phoneCall : Option EntityEnum := none
  speech : Option SpeechState := none
  turnByTurn : Option EntityEnum := none
  deriving DecidableEq, Repr

namespace AirPlayModeTransaction

def setResource (self : AirPlayModeTransaction) (resourceId : ResourceID)
    (transaction : ResourceTransaction) : AirPlayModeTransaction :=
  match resourceId with
  | .mainScreen => { self with screen := some transaction }
  | .mainAudio => { self with mainAudio := some transaction }

def setInitialPermanentEntity (self : AirPlayModeTransaction)
    (initial : InitialPermanentEntity) : AirPlayModeTransaction :=
  let permanentEntity := ResourcePermanentEntity.fromInitialPermanentEntity initial
  match initial.resourceId with
  | .mainScreen => { self with screenPerm := permanentEntity }
  | .mainAudio => { self with mainAudioPerm := permanentEntity }

/-- The speech state an accessory announces with a speech mode. -/
def accessorySpeech (mode : SpeechMode) : SpeechState :=
  { entity := if mode = .none then .none else .accessory, mode }

def setAppState (self : AirPlayModeTransaction) (appState : AppState) :
    AirPlayModeTransaction :=
  match appState.appStateId with
  | .speech => { self with speech := some (accessorySpeech (appState.speechMode.getD .none)) }
  | .phoneCall =>
    { self with phoneCall := some (if appState.state.getD false then .accessory else .none) }
  | .turnByTurn =>
    { self with turnByTurn := some (if appState.state.getD false then .accessory else .none) }
  | .invalid => self

/-- `impl From<&ChangeModes> for AirPlayModeTransaction`. -/
def fromChangeModes (modes : ChangeModes) : AirPlayModeTransaction :=
  let transaction := modes.initialPermanentEntity.foldl setInitialPermanentEntity {}
  let transaction := modes.resources.foldl
    (fun t resource => t.setResource resource.resourceId (.fromResource resource)) transaction
  modes.appStates.foldl setAppState transaction

end AirPlayModeTransaction

/-! ## All resources and application states of a session -/

structure AirPlayModeState where
  screen : ResourceState
  mainAudio : ResourceState
  phoneCall : EntityEnum
  speech : SpeechState
  turnByTurn : EntityEnum
  deriving DecidableEq, Repr

def AirPlayModeState.serialize (self : AirPlayModeState) : ModesChanged where
  appStates :=
    [⟨.phoneCall, self.phoneCall, none⟩, ⟨.turnByTurn, self.turnByTurn, none⟩,
      ⟨.speech, self.speech.entity, some self.speech.mode⟩]
  resources :=
    [⟨.mainScreen, self.screen.toPair.1, self.screen.toPair.2⟩,
      ⟨.mainAudio, self.mainAudio.toPair.1, self.mainAudio.toPair.2⟩]

structure ResourceController where
  screen : ResourceManager
  mainAudio : ResourceManager
  phoneCall : EntityEnum
  speech : SpeechState
  turnByTurn : EntityEnum
  deriving DecidableEq, Repr

namespace ResourceController

def default : ResourceController where
  screen := .controllerOwned
  mainAudio := .controllerOwned
  phoneCall := .none
  speech := .default
  turnByTurn := .none

/-- The manager of one resource. -/
def resource (self : ResourceController) : ResourceID → ResourceManager
  | .mainScreen => self.screen
  | .mainAudio => self.mainAudio

def setResource (self : ResourceController) (id : ResourceID) (manager : ResourceManager) :
    ResourceController :=
  match id with
  | .mainScreen => { self with screen := manager }
  | .mainAudio => { self with mainAudio := manager }

def fromChangeModes (modes : ChangeModes) : ResourceController :=
  let transaction := AirPlayModeTransaction.fromChangeModes modes
  let screen := (transaction.screenPerm.map .fromPermanentEntity).getD default.screen
  let mainAudio := (transaction.mainAudioPerm.map .fromPermanentEntity).getD default.mainAudio
  { screen := screen.applyInitialTransaction transaction.screen
    mainAudio := mainAudio.applyInitialTransaction transaction.mainAudio
    phoneCall := transaction.phoneCall.getD default.phoneCall
    speech := transaction.speech.getD default.speech
    turnByTurn := transaction.turnByTurn.getD default.turnByTurn }

def serializeToState (self : ResourceController) : AirPlayModeState where
  screen := self.screen.state
  mainAudio := self.mainAudio.state
  phoneCall := self.phoneCall
  speech := self.speech
  turnByTurn := self.turnByTurn

/-- `none` is the rejection of the request. -/
def processAppState (self : ResourceController) (appState : AppState) :
    Option ResourceController :=
  match appState.appStateId with
  | .speech => do
    let mode ← appState.speechMode
    return { self with speech := AirPlayModeTransaction.accessorySpeech mode }
  | .phoneCall => do
    let state ← appState.state
    if state then
      if self.phoneCall = .controller then none
      else return { self with phoneCall := .accessory }
    else if self.phoneCall = .accessory then return { self with phoneCall := .none }
    else return self
  | .turnByTurn => do
    let state ← appState.state
    if state then return { self with turnByTurn := .accessory }
    else if self.turnByTurn = .accessory then return { self with turnByTurn := .none }
    else return self
  | .invalid => none

/-- One resource item of the accessory; `none` is the rejection of the request. -/
def processResource (self : ResourceController) (resource : Resource) :
    Option ResourceController :=
  let (res, accepted) := (self.resource resource.resourceId).processAccessoryRequest resource
  if accepted then some (self.setResource resource.resourceId res) else none

/-- The request works on a copy that replaces `self` only when every item was accepted. -/
def processRequest (self : ResourceController) (request : ChangeModes) :
    ResourceController × Bool :=
  match request.appStates.foldlM processAppState self with
  | none => (self, false)
  | some next =>
    match request.resources.foldlM processResource next with
    | none => (self, false)
    | some next => (next, true)

def processRequestToResponse (self : ResourceController) (request : ChangeModes) :
    ResourceController × ChangeModesResponse :=
  match self.processRequest request with
  | (next, true) => (next, .new next.serializeToState.serialize)
  | (next, false) => (next, .error 1)

end ResourceController

end Catplay.Model.Modes
