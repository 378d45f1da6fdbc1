import Catplay.Model.Modes.ModesArbiter
import Catplay.Model.Rtsp.Frame

/-!
# The manager of the car

`c2a/catplay_c2a/src/proxy_rpc/{car_manager,car_to_iphone_command_task}.rs`, with `CommandPending`
of `carplay/catplay_carplay/src/events/command_queue.rs`. A sleep fills one slot, and `reconcile`
empties it. Of the overlay manager there is only whether it holds the car's screen; what its policy
and the alt screen manager answer are inputs. The information about the car, the clocks, the logs
and the delays are left out.
-/

set_option autoImplicit false

namespace Catplay.Model.Proxy

open Catplay.Model.Modes Catplay.Model.Rtsp

/-- The commands, with what the manager reads of them. -/
inductive Command
  | duckAudio
  | unduckAudio
  | disableBluetooth
  | changeModes (modes : ChangeModes)
  | modesChanged
  | forceKeyFrame
  | hidSendReport
  | hidSetInputMode
  | requestSiri
  | requestUI
  | setNightMode (nightMode : Bool)
  | setLimitedUI
  | changeMapZoomLevel
  | iapSendMessage
  deriving DecidableEq, Repr

/-- The property list of a `ChangeModesResponse`, read and written. -/
structure Plists where
  decode : List UInt8 → Option ChangeModesResponse
  encode : ChangeModesResponse → Option (List UInt8)

/-! ## A command of the car -/

/-- With the response it has been given. -/
structure CommandPending where
  command : Command
  response : Option RtspResponse
  deriving DecidableEq, Repr

namespace CommandPending

/-- Only the first response counts. -/
def respond (self : CommandPending) (ret : RtspResponse) : CommandPending :=
  match self.response with
  | none => { self with response := some ret }
  | some _ => self

def respondStatus (self : CommandPending) (status : HttpStatus) : CommandPending :=
  self.respond (.new none status)

def respondOk (self : CommandPending) : CommandPending := self.respondStatus .ok

def respondErr (self : CommandPending) : CommandPending := self.respondStatus .internalServerError

/-- `none` where the property list cannot be written. -/
def respondPlist (plists : Plists) (self : CommandPending) (status : HttpStatus)
    (plist : ChangeModesResponse) : Option CommandPending :=
  (plists.encode plist).map fun payload =>
    self.respond { RtspResponse.new none status with
      headers := [(.contentType, "application/x-apple-binary-plist".toList)]
      payload }

def isComplete (self : CommandPending) : Bool := self.response.isSome

end CommandPending

/-! ## A command on its way to the phone -/

structure CarToIphoneCommandTask where
  cmd : CommandPending
  command : Command
  deriving DecidableEq, Repr

structure CarToIphoneCommandTaskOutput where
  cmd : CommandPending
  command : Command
  response : Option RtspResponse
  deriving DecidableEq, Repr

/-- `poll`, once it is ready: the phone has responded, or it failed to, or it could not be asked. -/
def CarToIphoneCommandTask.finish (self : CarToIphoneCommandTask) (outcome : Option RtspResponse) :
    CarToIphoneCommandTaskOutput :=
  match outcome with
  | some response => ⟨self.cmd.respond response, self.command, some response⟩
  | none => ⟨self.cmd, self.command, none⟩

/-- The tasks that have not been taken: those under way, in order, behind the one that is ready. -/
structure IphonePeer where
  ready : Option CarToIphoneCommandTaskOutput
  carToIphoneProxy : List CarToIphoneCommandTask
  deriving DecidableEq, Repr

/-! ## The car -/

/-- The tasks of `tx_queue`, with the values they have captured. -/
inductive TxTask
  | record
  | assertModes (modes : AirPlayModeState)
  | screenSetup (modes : AirPlayModeState)
  /-- Whether it holds a stream. -/
  | screenTeardown (screen : Bool) (modes : AirPlayModeState)
  | altScreenSetup
  | altScreenTeardown
  | sendCommand (command : Command)
  | setupAudio
  deriving DecidableEq, Repr

/-- What the car has been told, and how many main screen streams it has. -/
structure Car where
  asserted : List AirPlayModeState
  streams : Nat
  deriving DecidableEq, Repr

/-- A task that succeeds. -/
def TxTask.run (car : Car) : TxTask → Car
  | .assertModes modes => { car with asserted := car.asserted ++ [modes] }
  | .screenSetup modes => { asserted := car.asserted ++ [modes], streams := car.streams + 1 }
  | .screenTeardown screen modes =>
    { asserted := car.asserted ++ [modes]
      streams := if screen then car.streams - 1 else car.streams }
  | .record | .altScreenSetup | .altScreenTeardown | .sendCommand _ | .setupAudio => car

/-- The receiver of a stream: nothing has been sent, something has, and it has been polled. -/
inductive ScreenSetup
  | waiting
  | sent
  | polled
  deriving DecidableEq, Repr

/-! ## The manager -/

inductive TxAdapterOp
  | iphoneConnected
  | iphoneDisconnected
  | screenChannel
  | altScreenChannel
  | negotiateFeatures
  | modes (modes : AirPlayModeState)
  | command (command : Command)
  | patchInfo
  | setupAudio
  deriving DecidableEq, Repr

inductive CarManagerError
  | iphoneDisconnectedDuringProxy
  | carFailedToRespond
  | txDisconnect
  deriving DecidableEq, Repr

/-- What the parts that are not modelled answer. -/
structure Answers where
  /-- `OverlayPolicyDefault::on_hid_interact`. -/
  hidAccepted : Bool
  /-- Whether the alt screen manager gives back a stream when its channel changes. -/
  altReplaced : Bool
  /-- Whether it gives back one when it is reconciled. -/
  altReconciled : Bool
  deriving DecidableEq, Repr

structure CarManager where
  carHadRecord : Bool
  iphonePeer : Option IphonePeer
  cmdNext : Option CommandPending
  txClosed : Bool
  /-- `overlay.has_car_peer()`. -/
  hasCarPeer : Bool
  modes : ModesArbiter
  initialScreenStealAttempted : Bool
  nightMode : Bool
  /-- The task that runs. -/
  txCurrent : Option TxTask
  txFailed : Bool
  txQueue : List TxTask
  pendingScreenSetup : Option ScreenSetup
  error : Option CarManagerError
  proxyRx : Option TxAdapterOp
  car : Car
  /-- The commands of the car that are over. -/
  finished : List CommandPending
  deriving DecidableEq, Repr

namespace CarManager

def new (infoModes : ChangeModes) (nightMode : Bool) : CarManager where
  carHadRecord := false
  iphonePeer := none
  cmdNext := none
  txClosed := false
  hasCarPeer := false
  modes := .new infoModes
  initialScreenStealAttempted := false
  nightMode
  txCurrent := none
  txFailed := false
  txQueue := []
  pendingScreenSetup := none
  error := none
  proxyRx := none
  car := ⟨[], 0⟩
  finished := []

def recoverInflight (plists : Plists) (cmd : CommandPending) : CommandPending :=
  match cmd.command with
  | .forceKeyFrame | .requestSiri | .requestUI | .setNightMode _ | .setLimitedUI | .hidSendReport =>
    cmd.respondOk
  | .changeModes _ => (cmd.respondPlist plists .ok (.error 2)).getD cmd
  | _ => cmd

def push (self : CarManager) (task : TxTask) : CarManager :=
  { self with txQueue := self.txQueue ++ [task] }

def finish (self : CarManager) (cmd : CommandPending) : CarManager :=
  { self with finished := self.finished ++ [cmd] }

def hasScreen (self : CarManager) : Bool := self.modes.modes.screen.entity = .controller

/-- The first half of `flush_modes`. -/
def flushDirty (self : CarManager) : CarManager :=
  if self.modes.modesDirty then
    { self with modes := { self.modes with modesDirty := false } }.push
      (.assertModes self.modes.modes.serializeToState)
  else self

/-- The second half: SETUP or TEARDOWN of the screen. -/
def flushScreen (self : CarManager) : CarManager :=
  let modes := self.modes.modes.serializeToState
  if self.hasScreen ∧ ¬self.hasCarPeer ∧ self.pendingScreenSetup.isNone then
    { self with pendingScreenSetup := some .waiting }.push (.screenSetup modes)
  else if ¬self.hasScreen ∧ self.hasCarPeer ∧ self.pendingScreenSetup.isNone then
    { self with hasCarPeer := false }.push (.screenTeardown self.hasCarPeer modes)
  else self

def flushModes (self : CarManager) : CarManager := self.flushDirty.flushScreen

def sanityError (self : CarManager) (error : CarManagerError) : CarManager :=
  { self with error := self.error.or (some error) }

def onPeerConnected (self : CarManager) : CarManager :=
  { self with iphonePeer := some ⟨none, []⟩ }

def onPeerDisconnect (answers : Answers) (self : CarManager) : CarManager :=
  let self :=
    match self.iphonePeer with
    | none => self
    | some peer =>
      let self := { self with iphonePeer := none }
      let self :=
        if peer.carToIphoneProxy.isEmpty then self
        else self.sanityError .iphoneDisconnectedDuringProxy
      { self with modes := self.modes.onPeerDisconnect }
  if answers.altReplaced then self.push .altScreenTeardown else self

/-- Whether a command of the phone is handed on to the car. -/
def proxiesToCar : Command → Bool
  | .duckAudio | .unduckAudio | .hidSetInputMode | .requestUI | .disableBluetooth => true
  | _ => false

def onIphoneCommand (self : CarManager) (command : Command) : CarManager :=
  if proxiesToCar command then self.push (.sendCommand command) else self

def dispatchTxOp (answers : Answers) (self : CarManager) : TxAdapterOp → CarManager
  | .iphoneConnected => self.onPeerConnected
  | .iphoneDisconnected => self.onPeerDisconnect answers
  | .screenChannel | .negotiateFeatures | .patchInfo => self
  | .altScreenChannel =>
    let self := if answers.altReplaced then self.push .altScreenTeardown else self
    self.push .altScreenSetup
  | .modes modes => { self with modes := self.modes.onPeerModesChanged modes.serialize }
  | .command command => self.onIphoneCommand command
  | .setupAudio => self.push .setupAudio

inductive ProxyType
  | none
  | proxy
  | proxyFastAck
  deriving DecidableEq, Repr

def proxyType : Command → ProxyType
  | .changeModes _ | .forceKeyFrame | .requestSiri | .requestUI | .setNightMode _ | .setLimitedUI
  | .changeMapZoomLevel => .proxy
  | .hidSendReport => .proxyFastAck
  | _ => .none

def onCarCommandConnected (answers : Answers) (self : CarManager) (peer : IphonePeer)
    (cmd : CommandPending) : CarManager :=
  if cmd.command = .hidSendReport ∧ ¬answers.hidAccepted then self.finish cmd.respondOk
  else
    let self :=
      match cmd.command with
      | .setNightMode nightMode => { self with nightMode }
      | .changeModes cm => { self with modes := self.modes.onPeerChangeModesStart cm }
      | _ => self
    let type := proxyType cmd.command
    match type with
    | .none => self.finish cmd.respondOk
    | .proxy | .proxyFastAck =>
      let cmd := if type = .proxyFastAck then cmd.respondOk else cmd
      { self with
        iphonePeer := some { peer with
          carToIphoneProxy := peer.carToIphoneProxy ++ [⟨cmd, cmd.command⟩] } }

def onCarCommandUnconnected (plists : Plists) (self : CarManager) (cmd : CommandPending) :
    CarManager :=
  match cmd.command with
  | .changeModes v =>
    let (modes, resp) := self.modes.processCarRequest v
    let cmd := (cmd.respondPlist plists .ok resp).getD cmd.respondErr
    { self with modes }.finish cmd
  | .setNightMode nightMode => { self with nightMode }.finish cmd.respondOk
  | .requestUI =>
    { self with modes := (self.modes.trySteal .userInitiated).markDirty }.finish cmd.respondOk
  | _ => self.finish cmd.respondOk

def dispatchCarCommand (plists : Plists) (answers : Answers) (self : CarManager)
    (cmd : CommandPending) : CarManager :=
  match self.iphonePeer with
  | some peer => self.onCarCommandConnected answers peer cmd
  | none => self.onCarCommandUnconnected plists cmd

/-! ### `reconcile` -/

def takeRecord (self : CarManager) : CarManager :=
  if self.carHadRecord then self else { self with carHadRecord := true }.push .record

/-- The stream of a SETUP that is over. -/
def takeScreen (self : CarManager) : CarManager :=
  if self.pendingScreenSetup = some .polled then
    { self with pendingScreenSetup := none, hasCarPeer := true }
  else self

/-- The command that is ready: a response to `ChangeModes` is for the arbiter. -/
def takeProxied (plists : Plists) (self : CarManager) : CarManager :=
  match self.iphonePeer with
  | none => self
  | some peer =>
    match peer.ready with
    | none => self
    | some completed =>
      let self := { self with iphonePeer := some { peer with ready := none } }
      if ¬completed.cmd.isComplete then self.finish (recoverInflight plists completed.cmd)
      else
        let self := self.finish completed.cmd
        match completed.command, completed.response.bind (fun resp => plists.decode resp.payload) with
        | .changeModes _, some p => { self with modes := self.modes.onPeerChangeModesEnd p }
        | _, _ => self

def takeOp (answers : Answers) (self : CarManager) : CarManager :=
  match self.proxyRx with
  | none => self
  | some op => { self with proxyRx := none }.dispatchTxOp answers op

def takeCommand (plists : Plists) (answers : Answers) (self : CarManager) : CarManager :=
  match self.cmdNext with
  | none => self
  | some cmd => { self with cmdNext := none }.dispatchCarCommand plists answers cmd

/-- The first time there is no phone. -/
def initialSteal (self : CarManager) : CarManager :=
  if self.iphonePeer.isNone ∧ ¬self.initialScreenStealAttempted then
    { self with
      initialScreenStealAttempted := true
      modes := self.modes.trySteal .niceToHave }
  else self

def reconcile (plists : Plists) (answers : Answers) (self : CarManager) :
    Except CarManagerError CarManager :=
  let self := self.takeRecord
  if self.txClosed then .error .txDisconnect
  else
    match self.error with
    | some err => .error err
    | none =>
      if self.txFailed then .error .carFailedToRespond
      else
        let self := (self.takeScreen.takeProxied plists).takeOp answers
        let self := (self.takeCommand plists answers).flushModes
        let self := self.initialSteal.flushModes
        .ok (if answers.altReconciled then self.push .altScreenTeardown else self)

/-! ### `sleep` -/

/-- What ends a sleep. -/
inductive Wake
  /-- The overlay or the alt screen. -/
  | screens
  | proxyOp (op : TxAdapterOp)
  | screenSetup
  | command (command : Command)
  | txClosed
  | proxied (outcome : Option RtspResponse)
  | taskDone
  | taskFailed
  deriving DecidableEq, Repr

/-- The next task is started. -/
def startTask (self : CarManager) : CarManager :=
  match self.txCurrent, self.txQueue with
  | none, task :: rest => { self with txCurrent := some task, txQueue := rest }
  | _, _ => self

/-- A task that succeeds; the stream of a SETUP is sent. -/
def endTask (self : CarManager) (task : TxTask) : CarManager :=
  { self with
    txCurrent := none
    car := task.run self.car
    pendingScreenSetup :=
      match task with
      | .screenSetup _ => some .sent
      | _ => self.pendingScreenSetup }

/-- The slot that is filled; `none` where there is nothing to fill it with. -/
def fill (self : CarManager) : Wake → Option CarManager
  | .screens => some self
  | .proxyOp op => some { self with proxyRx := some op }
  | .screenSetup =>
    if self.pendingScreenSetup = some .sent then
      some { self with pendingScreenSetup := some .polled }
    else none
  | .command command => some { self with cmdNext := some ⟨command, none⟩ }
  | .txClosed => some { self with txClosed := true }
  | .proxied outcome =>
    match self.iphonePeer with
    | some ⟨none, task :: rest⟩ =>
      some { self with iphonePeer := some ⟨some (task.finish outcome), rest⟩ }
    | _ => none
  | .taskDone => self.txCurrent.map self.endTask
  | .taskFailed =>
    self.txCurrent.map fun _ => { self with txCurrent := none, txFailed := true }

/-- One round of `worker`: a sleep and then `reconcile`. It ends with an error. -/
def round (plists : Plists) (self : CarManager) (event : Wake × Answers) : Option CarManager :=
  (self.startTask.fill event.1).bind fun self => (self.reconcile plists event.2).toOption

/-- `worker`: it reconciles before it sleeps for the first time. -/
def worker (plists : Plists) (infoModes : ChangeModes) (nightMode : Bool) (answers : Answers)
    (events : List (Wake × Answers)) : Option CarManager :=
  ((new infoModes nightMode).reconcile plists answers).toOption.bind fun self =>
    Library.Run.run (round plists) self events

end CarManager

end Catplay.Model.Proxy
