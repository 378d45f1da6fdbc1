import Catplay.Library.Run
import Catplay.Model.Modes.ResourceManager

/-!
# The modes arbiter of the proxy

`ModesArbiter` (`c2a/catplay_c2a/src/proxy_rpc/modes_arbiter.rs`) stands between
the car and the phone. It answers the car's `ChangeModes` requests from its own
`ResourceController`, follows the phone's `ModesChanged` reports, and pairs a
report with the car request the phone has accepted. The last section gathers the
calls the proxy makes on it into one step function, whose runs the results about
the arbiter are stated over.
-/

set_option autoImplicit false

namespace Catplay.Model.Modes

structure ModesArbiter where
  modes : ResourceController
  modesDirty : Bool
  inflightPeerChangeModes : List ChangeModes
  acceptedPeerChangeModes : List ChangeModes
  pendingPeerModesChanged : List ModesChanged
  deriving DecidableEq, Repr

namespace ModesArbiter

def new (infoModes : ChangeModes) : ModesArbiter where
  modes := .fromChangeModes infoModes
  modesDirty := true
  inflightPeerChangeModes := []
  acceptedPeerChangeModes := []
  pendingPeerModesChanged := []

/-- The manager the arbiter holds for a resource. -/
def resource (self : ModesArbiter) (id : ResourceID) : ResourceManager := self.modes.resource id

def markDirty (self : ModesArbiter) : ModesArbiter := { self with modesDirty := true }

def processCarRequest (self : ModesArbiter) (request : ChangeModes) :
    ModesArbiter × ChangeModesResponse :=
  let (modes, response) := self.modes.processRequestToResponse request
  ({ self.markDirty with modes }, response)

def resetModes (self : ModesArbiter) : ModesArbiter :=
  { self with
    modes :=
      { screen := .new .controllerHas .anytime .anytime
        mainAudio := .new .accessoryHas .anytime .anytime
        phoneCall := .none
        speech := if self.modes.speech.entity = .controller then .default else self.modes.speech
        turnByTurn := .none }
    modesDirty := true }

def onPeerDisconnect (self : ModesArbiter) : ModesArbiter :=
  { self with
    inflightPeerChangeModes := []
    acceptedPeerChangeModes := []
    pendingPeerModesChanged := [] }.resetModes

def trySteal (self : ModesArbiter) (p : ResourceTransferPriority) : ModesArbiter :=
  if self.modes.screen.entity = .controller then self
  else if self.modes.screen.canTake p then
    let (screen, accepted) :=
      self.modes.screen.takeBy (.take .mainScreen p .anytime .anytime) true
    if accepted then { self with modes := { self.modes with screen }, modesDirty := true }
    else { self with modes := { self.modes with screen } }
  else self

def findResource (request : ChangeModes) (id : ResourceID) : Option Resource :=
  request.resources.find? fun resource => resource.resourceId = id

/-- The item of the accepted request about `id`, when its transfer type is `type`. -/
def findTransfer (acceptedRequest : Option ChangeModes) (id : ResourceID)
    (type : ResourceTransferType) : Option Resource :=
  (acceptedRequest.bind fun request => findResource request id).filter
    fun resource => resource.transferType = type

def mergePeerResource (old : ResourceManager) (newState : ResourceState) (id : ResourceID)
    (acceptedRequest : Option ChangeModes) : ResourceManager :=
  if newState = .accessoryBorrowed then
    let unborrowConstraint :=
      ((findTransfer acceptedRequest id .borrow).bind (·.unborrowConstraint)).getD
        (if old.state = .accessoryBorrowed then old.unborrowConstraint else .anytime)
    (ResourceManager.new newState .anytime .anytime).withUnborrowConstraint unborrowConstraint
  else if newState.owner = .controller then .new newState .anytime .anytime
  else
    let takeConstraint := if old.owner = .accessory then old.takeConstraint else .anytime
    let borrowConstraint := if old.owner = .accessory then old.borrowConstraint else .anytime
    match findTransfer acceptedRequest id .take with
    | some resource =>
      .new newState (resource.takeConstraint.getD takeConstraint)
        (resource.borrowConstraint.getD borrowConstraint)
    | none => .new newState takeConstraint borrowConstraint

def applyPeerAppState (next : ResourceController) (appState : AppStateChanged) :
    ResourceController :=
  match appState.appStateId with
  | .speech =>
    { next with speech := { entity := appState.entity, mode := appState.speechMode.getD .none } }
  | .phoneCall => { next with phoneCall := appState.entity }
  | .turnByTurn => { next with turnByTurn := appState.entity }
  | .invalid => next

/-- Each item is merged with the manager from before the report, so the last item
about a resource decides. -/
def applyPeerResource (self : ModesArbiter) (acceptedRequest : Option ChangeModes)
    (next : ResourceController) (resource : ResourceChanged) : ResourceController :=
  let newState := ResourceState.fromPair resource.entity resource.permanentEntity
  next.setResource resource.resourceId
    (mergePeerResource (self.resource resource.resourceId) newState resource.resourceId
      acceptedRequest)

def applyPeerModes (self : ModesArbiter) (modes : ModesChanged)
    (acceptedRequest : Option ChangeModes) : ModesArbiter :=
  let next := modes.appStates.foldl applyPeerAppState self.modes
  let next := modes.resources.foldl (self.applyPeerResource acceptedRequest) next
  { self with modes := next, modesDirty := true }

/-- Take the oldest accepted request off its queue and apply a report with it. -/
def applyWithAccepted (self : ModesArbiter) (modes : ModesChanged) : ModesArbiter :=
  { self with acceptedPeerChangeModes := self.acceptedPeerChangeModes.tail }.applyPeerModes modes
    self.acceptedPeerChangeModes.head?

/-- The `while` loop of `drain_pending_peer_modes_changed_if_idle`, over the queue. -/
def drainPending (self : ModesArbiter) : List ModesChanged → ModesArbiter
  | [] => { self with pendingPeerModesChanged := [] }
  | modes :: rest => drainPending (self.applyWithAccepted modes) rest

def drainPendingPeerModesChangedIfIdle (self : ModesArbiter) : ModesArbiter :=
  if self.inflightPeerChangeModes.isEmpty then self.drainPending self.pendingPeerModesChanged
  else self

def onPeerModesChanged (self : ModesArbiter) (modes : ModesChanged) : ModesArbiter :=
  let self := self.markDirty
  if self.inflightPeerChangeModes.isEmpty then self.applyWithAccepted modes
  else { self with pendingPeerModesChanged := self.pendingPeerModesChanged ++ [modes] }

def onPeerChangeModesStart (self : ModesArbiter) (modes : ChangeModes) : ModesArbiter :=
  { self with inflightPeerChangeModes := self.inflightPeerChangeModes ++ [modes] }

def onPeerChangeModesEnd (self : ModesArbiter) (resp : ChangeModesResponse) : ModesArbiter :=
  match self.inflightPeerChangeModes with
  | [] => self
  | request :: inflight =>
    let self := { self with inflightPeerChangeModes := inflight }
    if resp.status ≠ 0 then self.drainPendingPeerModesChangedIfIdle
    else
      { self with acceptedPeerChangeModes :=
          self.acceptedPeerChangeModes ++ [request] }.drainPendingPeerModesChangedIfIdle

/-! ## Runs -/

/-- The calls that reach the arbiter: a `ChangeModes` request of the car, a request of
the phone on one resource, the proxy taking the screen back, and the three reports
of the exchange with the phone. -/
inductive Call
  | carRequest (request : ChangeModes)
  | controllerRequest (resource : Resource)
  | trySteal (p : ResourceTransferPriority)
  | peerChangeModesStart (modes : ChangeModes)
  | peerChangeModesEnd (resp : ChangeModesResponse)
  | peerModesChanged (modes : ModesChanged)
  deriving DecidableEq, Repr

/-- `process_controller_request` on the manager of the named resource. -/
def processControllerRequest (self : ModesArbiter) (resource : Resource) : ModesArbiter × Bool :=
  let (res, accepted) :=
    (self.resource resource.resourceId).processControllerRequest resource
  ({ self with modes := self.modes.setResource resource.resourceId res }, accepted)

def call (self : ModesArbiter) : Call → ModesArbiter
  | .carRequest request => (self.processCarRequest request).1
  | .controllerRequest resource => (self.processControllerRequest resource).1
  | .trySteal p => self.trySteal p
  | .peerChangeModesStart modes => self.onPeerChangeModesStart modes
  | .peerChangeModesEnd resp => self.onPeerChangeModesEnd resp
  | .peerModesChanged modes => self.onPeerModesChanged modes

def step (self : ModesArbiter) (c : Call) : Option ModesArbiter := some (self.call c)

end ModesArbiter

end Catplay.Model.Modes
