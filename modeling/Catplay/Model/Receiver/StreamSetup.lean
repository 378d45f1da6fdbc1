import Catplay.Model.Rtsp.Frame

/-!
# SETUP of streams

The part of `AirPlayReceiver` that answers a SETUP request: one stream after the other is opened
and stored in the session. What the sinks, the sockets and the codecs answer is a parameter of each
stream (`Openings`); what only they see of a description is left out.
-/

set_option autoImplicit false

namespace Catplay.Model.Receiver

open Catplay.Model.Rtsp

inductive RtspError
  | code (status : HttpStatus)
  | unparsablePlist
  | serializationFailed
  | notSupported
  /-- An error of a socket or of a part of the session that is not modelled. -/
  | foreign (message : String)
  deriving DecidableEq, Repr

inductive StreamType
  | invalid | generalAudio | mainAudio | altAudio | mainHighAudio | screen | altScreen
  deriving DecidableEq, Repr

structure StreamDescriptionAudio where
  streamConnectionId : UInt64
  streamType : StreamType
  audioLatencyMs : Nat
  controlPort : Option UInt16
  dataPort : Option UInt16
  input : Bool
  deriving DecidableEq, Repr

structure StreamDescriptionAudioLegacy where
  latencyMin : Nat
  sr : Nat
  controlPort : UInt16
  streamType : StreamType
  streamConnectionId : UInt64
  deriving DecidableEq, Repr

/-- The multiplication saturates at the largest number of 64 bits. -/
def StreamDescriptionAudioLegacy.asModern (self : StreamDescriptionAudioLegacy) :
    StreamDescriptionAudio where
  streamConnectionId := self.streamConnectionId
  streamType := self.streamType
  audioLatencyMs := max (min (self.latencyMin * 1000) (2 ^ 64 - 1) / max self.sr 1) 250
  controlPort := some self.controlPort
  dataPort := none
  input := false

structure StreamDescriptionScreen where
  streamConnectionId : UInt64
  streamType : StreamType
  latencyMs : Option Nat
  uuid : Option String
  deriving DecidableEq, Repr

inductive StreamDescription
  | audioLegacy (stream : StreamDescriptionAudioLegacy)
  | audio (stream : StreamDescriptionAudio)
  | screen (stream : StreamDescriptionScreen)
  | invalid
  deriving DecidableEq, Repr

structure StreamDescriptionResponse where
  dataPort : UInt16
  streamType : StreamType
  streamConnectionId : UInt64 := 0
  controlPort : Option UInt16 := none
  supportsRtpPacketRedundancy : Bool := false
  supportsHighAccuracyTimestamps : Bool := false
  deriving DecidableEq, Repr

namespace StreamDescriptionResponse

def newAudio (streamType : StreamType) (streamConnectionId : UInt64) (dataPort controlPort : UInt16)
    (supportsRtpPacketRedundancy supportsHighAccuracyTimestamps : Bool) :
    StreamDescriptionResponse where
  dataPort
  controlPort := some controlPort
  streamType
  streamConnectionId
  supportsRtpPacketRedundancy
  supportsHighAccuracyTimestamps

def newScreen (streamType : StreamType) (dataPort : UInt16) : StreamDescriptionResponse where
  dataPort
  streamType

end StreamDescriptionResponse

/-- What a stream meets while it is opened. An answer that is `Bool` or `Option` has an error that
the receiver only logs. -/
structure Openings where
  /-- `RtpReceiver::init_codec`. -/
  initCodec : Except RtspError Unit
  openAudio : Bool
  /-- `RtpReceiver::init_codec_record`. -/
  initCodecRecord : Except RtspError Unit
  openMicrophone : Bool
  /-- `RtpReceiver::new`: the ports of RTP and RTCP. -/
  newReceiver : Option (UInt16 × UInt16)
  /-- `open_screen` or `open_alt_screen`. -/
  openScreen : Bool
  /-- `init` of the screen sink. -/
  initSink : Bool
  /-- `TcpHelper::accept_timeout`: the port. -/
  acceptTimeout : Except RtspError UInt16

structure RtpReceiver where
  stream : StreamDescriptionAudio
  localPortRtp : UInt16
  localPortRtcp : UInt16
  recording : Bool
  deriving DecidableEq, Repr

structure ScreenReceiver where
  streamConnectionId : UInt64
  latencyMs : Nat
  localPort : UInt16
  deriving DecidableEq, Repr

/-- The streams of a session. -/
structure Streams where
  /-- The media clock of the initial SETUP is there. -/
  mediaClock : Bool := false
  screen : Option ScreenReceiver := none
  altScreen : Option ScreenReceiver := none
  mainAudio : Option RtpReceiver := none
  altAudio : Option RtpReceiver := none
  deriving DecidableEq, Repr

inductive AirPlayReceiverState
  | pairing
  | initialSetup
  | preRecord
  | postRecord
  | closed (error : RtspError)
  deriving DecidableEq, Repr

structure AirPlayReceiver where
  state : AirPlayReceiverState
  streams : Streams
  deriving DecidableEq, Repr

/-- What a SETUP request brings and meets. -/
structure SetupRequest where
  /-- `respond_setup_initial` up to the sockets and the clock that it stores. -/
  initialSetup : Except RtspError Unit
  /-- `get_plist`. -/
  streams : Except RtspError (List (StreamDescription × Openings))
  /-- `set_plist` of the answer. -/
  setPlist : Except RtspError Unit

inductive SetupAnswer
  | initial
  | streams (responses : List StreamDescriptionResponse)
  deriving DecidableEq, Repr

namespace AirPlayReceiver

def setupScreen (self : AirPlayReceiver) (stream : StreamDescriptionScreen) (openings : Openings) :
    AirPlayReceiver × Except RtspError StreamDescriptionResponse :=
  let existing : Option (Option ScreenReceiver) :=
    match stream.streamType with
    | .screen => some self.streams.screen
    | .altScreen => some self.streams.altScreen
    | _ => none
  match existing with
  | none => (self, .error (.code .notAcceptable))
  | some (some _) => (self, .error (.code .badRequest))
  | some none =>
    if ¬ openings.openScreen then (self, .error (.code .internalServerError))
    else if ¬ openings.initSink then (self, .error (.code .internalServerError))
    else if ¬ self.streams.mediaClock then (self, .error (.code .internalServerError))
    else
      match openings.acceptTimeout with
      | .error error => (self, .error error)
      | .ok port =>
        let helper : ScreenReceiver := ⟨stream.streamConnectionId, stream.latencyMs.getD 0, port⟩
        let streams : Streams :=
          match stream.streamType with
          | .altScreen => { self.streams with altScreen := some helper }
          | _ => { self.streams with screen := some helper }
        ({ self with streams }, .ok (.newScreen stream.streamType port))

/-- The microphone of a stream that has one. -/
def openRecorder (stream : StreamDescriptionAudio) (openings : Openings) : Except RtspError Bool :=
  if stream.input then
    match openings.initCodecRecord with
    | .error error => .error error
    | .ok () =>
      if openings.openMicrophone then .ok true else .error (.code .internalServerError)
  else .ok false

def setupAudio (self : AirPlayReceiver) (stream : StreamDescriptionAudio) (openings : Openings) :
    AirPlayReceiver × Except RtspError StreamDescriptionResponse :=
  let audioStream : Option (Option RtpReceiver) :=
    match stream.streamType with
    | .generalAudio | .mainAudio | .mainHighAudio => some self.streams.mainAudio
    | .altAudio => some self.streams.altAudio
    | _ => none
  match audioStream with
  | none => (self, .error (.code .notAcceptable))
  | some (some _) => (self, .error (.code .notAcceptable))
  | some none =>
    let stream := { stream with audioLatencyMs := min (max stream.audioLatencyMs 32) 2000 }
    match openings.initCodec with
    | .error error => (self, .error error)
    | .ok () =>
      if ¬ openings.openAudio then (self, .error (.code .internalServerError))
      else
        match openRecorder stream openings with
        | .error error => (self, .error error)
        | .ok recording =>
          match openings.newReceiver with
          | none => (self, .error (.code .internalServerError))
          | some (localPortRtp, localPortRtcp) =>
            let receiver : RtpReceiver := ⟨stream, localPortRtp, localPortRtcp, recording⟩
            let streams : Streams :=
              match stream.streamType with
              | .altAudio => { self.streams with altAudio := some receiver }
              | _ => { self.streams with mainAudio := some receiver }
            ({ self with streams },
              .ok (.newAudio stream.streamType stream.streamConnectionId localPortRtp
                localPortRtcp false true))

def setupStream (self : AirPlayReceiver) (stream : StreamDescription) (openings : Openings) :
    AirPlayReceiver × Except RtspError StreamDescriptionResponse :=
  match stream with
  | .audioLegacy stream => self.setupAudio stream.asModern openings
  | .audio stream => self.setupAudio stream openings
  | .screen stream => self.setupScreen stream openings
  | .invalid => (self, .error (.code .notAcceptable))

/-- The loop of `respond_setup`: the first error ends it. -/
def setupStreams (self : AirPlayReceiver) :
    List (StreamDescription × Openings) →
      AirPlayReceiver × Except RtspError (List StreamDescriptionResponse)
  | [] => (self, .ok [])
  | (stream, openings) :: rest =>
    match self.setupStream stream openings with
    | (next, .error error) => (next, .error error)
    | (next, .ok sdr) =>
      match next.setupStreams rest with
      | (last, .error error) => (last, .error error)
      | (last, .ok streams) => (last, .ok (sdr :: streams))

def respondSetupInitial (self : AirPlayReceiver) (req : SetupRequest) :
    AirPlayReceiver × Except RtspError SetupAnswer :=
  match req.initialSetup with
  | .error error => (self, .error error)
  | .ok () =>
    let stored := { self with streams := { self.streams with mediaClock := true } }
    match req.setPlist with
    | .error error => (stored, .error error)
    | .ok () => ({ stored with state := .preRecord }, .ok .initial)

def respondSetup (self : AirPlayReceiver) (req : SetupRequest) :
    AirPlayReceiver × Except RtspError SetupAnswer :=
  match self.state with
  | .initialSetup => self.respondSetupInitial req
  | .preRecord | .postRecord =>
    match req.streams with
    | .error error => (self, .error error)
    | .ok streams =>
      match self.setupStreams streams with
      | (last, .error error) => (last, .error error)
      | (last, .ok responses) =>
        match req.setPlist with
        | .error error => (last, .error error)
        | .ok () => (last, .ok (.streams responses))
  | _ => (self, .error (.code .badRequest))

end AirPlayReceiver

end Catplay.Model.Receiver
