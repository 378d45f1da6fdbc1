import Catplay.Model.Receiver.StreamSetup

/-!
# A SETUP that fails

Each stream of a SETUP request is stored in a slot of the session as soon as it is open, and the
first error ends the request without closing those before it. So a failed SETUP leaves the streams
alone exactly when its first stream already fails (`setup_leaves_streams`).
-/

set_option autoImplicit false

namespace Catplay.Analysis.Receiver

open Catplay.Model.Rtsp hiding RtspError
open Catplay.Model.Receiver

/-! ## Slots -/

/-- The place of a stream in the session. -/
inductive Slot
  | mainAudio | altAudio | screen | altScreen
  deriving DecidableEq, Repr

def audioSlot : StreamType → Option Slot
  | .generalAudio | .mainAudio | .mainHighAudio => some .mainAudio
  | .altAudio => some .altAudio
  | _ => none

def screenSlot : StreamType → Option Slot
  | .screen => some .screen
  | .altScreen => some .altScreen
  | _ => none

def slotOf : StreamDescription → Option Slot
  | .audioLegacy stream => audioSlot stream.streamType
  | .audio stream => audioSlot stream.streamType
  | .screen stream => screenSlot stream.streamType
  | .invalid => none

def isOpen (streams : Streams) : Slot → Bool
  | .mainAudio => streams.mainAudio.isSome
  | .altAudio => streams.altAudio.isSome
  | .screen => streams.screen.isSome
  | .altScreen => streams.altScreen.isSome

/-- The open streams of a session. -/
def openStreams (streams : Streams) :
    Option RtpReceiver × Option RtpReceiver × Option ScreenReceiver × Option ScreenReceiver :=
  (streams.mainAudio, streams.altAudio, streams.screen, streams.altScreen)

/-! ## What a stream needs -/

/-- The codecs, the sinks and the sockets of an audio stream are there. -/
def audioOpens (input : Bool) (openings : Openings) : Bool :=
  openings.initCodec.isOk && openings.openAudio &&
    (!input || (openings.initCodecRecord.isOk && openings.openMicrophone)) &&
      openings.newReceiver.isSome

/-- The sink, the clock and the socket of a screen stream are there. -/
def screenOpens (mediaClock : Bool) (openings : Openings) : Bool :=
  openings.openScreen && openings.initSink && mediaClock && openings.acceptTimeout.isOk

def opens (mediaClock : Bool) (openings : Openings) : StreamDescription → Bool
  | .audioLegacy _ => audioOpens false openings
  | .audio stream => audioOpens stream.input openings
  | .screen _ => screenOpens mediaClock openings
  | .invalid => false

/-- The slot of the stream is free, and the stream has what it needs. -/
def canOpen (streams : Streams) (item : StreamDescription × Openings) : Bool :=
  (slotOf item.1).any (!isOpen streams ·) && opens streams.mediaClock item.2 item.1

/-- All streams of a request can be opened, each in a slot of its own. -/
structure AllOpen (streams : Streams) (items : List (StreamDescription × Openings)) : Prop where
  each : ∀ item ∈ items, canOpen streams item = true
  apart : (items.map fun item => slotOf item.1).Nodup

/-! ## One stream -/

/-- The stream went into its slot, and nothing else changed. -/
structure Opened (before : AirPlayReceiver) (slot : Slot) (after : AirPlayReceiver) : Prop where
  free : isOpen before.streams slot = false
  state : after.state = before.state
  clock : after.streams.mediaClock = before.streams.mediaClock
  slots : ∀ s, isOpen after.streams s = (decide (s = slot) || isOpen before.streams s)

/-- A stream is opened in its slot, or the receiver stays as it is. -/
def Settles (self : AirPlayReceiver) (slot : Option Slot) (able : Bool)
    (result : AirPlayReceiver × Except RtspError StreamDescriptionResponse) : Prop :=
  (∃ s sdr next, slot = some s ∧ able = true ∧ result = (next, .ok sdr) ∧ Opened self s next) ∨
    ((slot.any (!isOpen self.streams ·) && able) = false ∧ ∃ error, result = (self, .error error))

variable {self : AirPlayReceiver}

theorem Settles.refused {slot : Option Slot} {able : Bool} {error : RtspError}
    (h : (slot.any (!isOpen self.streams ·) && able) = false) :
    Settles self slot able (self, .error error) :=
  Or.inr ⟨h, error, rfl⟩

theorem openRecorder_ok_iff (stream : StreamDescriptionAudio) (openings : Openings) :
    (∃ recording, AirPlayReceiver.openRecorder stream openings = .ok recording) ↔
      (!stream.input || (openings.initCodecRecord.isOk && openings.openMicrophone)) = true := by
  unfold AirPlayReceiver.openRecorder
  cases stream.input with
  | false => exact iff_of_true ⟨false, rfl⟩ rfl
  | true =>
    cases openings.initCodecRecord with
    | error error =>
      refine iff_of_false ?_ (by simp [Except.isOk, Except.toBool])
      rintro ⟨_, h⟩
      cases h
    | ok _ =>
      cases openings.openMicrophone with
      | true => exact iff_of_true ⟨true, rfl⟩ rfl
      | false =>
        refine iff_of_false ?_ (by simp)
        rintro ⟨_, h⟩
        cases h

/-- An audio stream in its slot. -/
def storeAudio (streams : Streams) (slot : Slot) (receiver : RtpReceiver) : Streams :=
  if slot = .altAudio then { streams with altAudio := some receiver }
  else { streams with mainAudio := some receiver }

theorem opened_storeAudio {slot : Slot} {streamType : StreamType}
    (hslot : audioSlot streamType = some slot) (hfree : isOpen self.streams slot = false)
    (receiver : RtpReceiver) :
    Opened self slot { self with streams := storeAudio self.streams slot receiver } := by
  refine ⟨hfree, rfl, ?_, fun s => ?_⟩
  · unfold storeAudio
    split <;> rfl
  · cases streamType <;> cases hslot <;> cases s <;> simp [storeAudio, isOpen]

theorem setupAudio_no_slot {stream : StreamDescriptionAudio} {openings : Openings}
    (hslot : audioSlot stream.streamType = none) :
    self.setupAudio stream openings = (self, .error (.code .notAcceptable)) := by
  unfold AirPlayReceiver.setupAudio
  cases htype : stream.streamType with
  | invalid | screen | altScreen => rfl
  | generalAudio | mainAudio | altAudio | mainHighAudio =>
    rw [htype] at hslot
    cases hslot

theorem setupAudio_taken {stream : StreamDescriptionAudio} {openings : Openings} {slot : Slot}
    (hslot : audioSlot stream.streamType = some slot) (hopen : isOpen self.streams slot = true) :
    self.setupAudio stream openings = (self, .error (.code .notAcceptable)) := by
  unfold AirPlayReceiver.setupAudio
  cases htype : stream.streamType <;> rw [htype] at hslot <;> cases hslot
  case generalAudio | mainAudio | mainHighAudio =>
    obtain ⟨existing, hexisting⟩ := Option.isSome_iff_exists.mp hopen
    simp only [hexisting]
  case altAudio =>
    obtain ⟨existing, hexisting⟩ := Option.isSome_iff_exists.mp hopen
    simp only [hexisting]

/-- In a free slot the stream is opened step by step. -/
theorem setupAudio_free {stream : StreamDescriptionAudio} {openings : Openings} {slot : Slot}
    (hslot : audioSlot stream.streamType = some slot) (hfree : isOpen self.streams slot = false) :
    ∃ clamped : StreamDescriptionAudio, clamped.input = stream.input ∧
      self.setupAudio stream openings =
        match openings.initCodec with
        | .error error => (self, .error error)
        | .ok () =>
          if ¬ openings.openAudio then (self, .error (.code .internalServerError))
          else
            match AirPlayReceiver.openRecorder clamped openings with
            | .error error => (self, .error error)
            | .ok recording =>
              match openings.newReceiver with
              | none => (self, .error (.code .internalServerError))
              | some (localPortRtp, localPortRtcp) =>
                (⟨self.state, storeAudio self.streams slot
                    ⟨clamped, localPortRtp, localPortRtcp, recording⟩⟩,
                  .ok (.newAudio clamped.streamType clamped.streamConnectionId localPortRtp
                    localPortRtcp false true)) := by
  refine ⟨{ stream with audioLatencyMs := min (max stream.audioLatencyMs 32) 2000 }, rfl, ?_⟩
  unfold AirPlayReceiver.setupAudio
  cases htype : stream.streamType <;> rw [htype] at hslot <;> cases hslot
  case generalAudio | mainAudio | mainHighAudio =>
    have hnone : self.streams.mainAudio = none := Option.not_isSome_iff_eq_none.mp (by
      rw [show self.streams.mainAudio.isSome = false from hfree]
      decide)
    simp only [hnone]
    rfl
  case altAudio =>
    have hnone : self.streams.altAudio = none := Option.not_isSome_iff_eq_none.mp (by
      rw [show self.streams.altAudio.isSome = false from hfree]
      decide)
    simp only [hnone]
    rfl

theorem setupAudio_spec (self : AirPlayReceiver) (stream : StreamDescriptionAudio)
    (openings : Openings) :
    Settles self (audioSlot stream.streamType) (audioOpens stream.input openings)
      (self.setupAudio stream openings) := by
  cases hslot : audioSlot stream.streamType with
  | none =>
    rw [setupAudio_no_slot hslot]
    exact .refused rfl
  | some slot =>
    cases hopen : isOpen self.streams slot with
    | true =>
      rw [setupAudio_taken hslot hopen]
      exact .refused (by simp [hopen])
    | false =>
      obtain ⟨clamped, hinput, heq⟩ := @setupAudio_free self stream openings slot hslot hopen
      have hrecorder := openRecorder_ok_iff clamped openings
      rw [hinput] at hrecorder
      rw [heq]
      unfold audioOpens
      cases hcodec : openings.initCodec with
      | error error => exact .refused (by simp [Except.isOk, Except.toBool])
      | ok _ =>
        cases haudio : openings.openAudio with
        | false => exact .refused (by simp)
        | true =>
          cases hrecord : AirPlayReceiver.openRecorder clamped openings with
          | error error =>
            rw [hrecord] at hrecorder
            have hnot := mt hrecorder.mpr (by rintro ⟨_, h⟩; cases h)
            exact .refused (by simp [hnot])
          | ok recording =>
            have hable := hrecorder.mp ⟨recording, hrecord⟩
            cases hnew : openings.newReceiver with
            | none => exact .refused (by simp)
            | some ports =>
              refine Or.inl ⟨slot, _, _, rfl, ?_, rfl, opened_storeAudio hslot hopen _⟩
              rw [hable]
              rfl

/-- A screen in its slot. -/
def storeScreen (streams : Streams) (slot : Slot) (helper : ScreenReceiver) : Streams :=
  if slot = .altScreen then { streams with altScreen := some helper }
  else { streams with screen := some helper }

theorem opened_storeScreen {slot : Slot} {streamType : StreamType}
    (hslot : screenSlot streamType = some slot) (hfree : isOpen self.streams slot = false)
    (helper : ScreenReceiver) :
    Opened self slot { self with streams := storeScreen self.streams slot helper } := by
  refine ⟨hfree, rfl, ?_, fun s => ?_⟩
  · unfold storeScreen
    split <;> rfl
  · cases streamType <;> cases hslot <;> cases s <;> simp [storeScreen, isOpen]

theorem setupScreen_refused {stream : StreamDescriptionScreen} (openings : Openings)
    (h : (screenSlot stream.streamType).any (!isOpen self.streams ·) = false) :
    ∃ error, self.setupScreen stream openings = (self, .error error) := by
  unfold AirPlayReceiver.setupScreen
  cases htype : stream.streamType with
  | invalid | generalAudio | mainAudio | altAudio | mainHighAudio => exact ⟨_, rfl⟩
  | screen =>
    have hopen : self.streams.screen.isSome = true := by simpa [htype, screenSlot, isOpen] using h
    obtain ⟨existing, hexisting⟩ := Option.isSome_iff_exists.mp hopen
    simp only [hexisting]
    exact ⟨_, rfl⟩
  | altScreen =>
    have hopen : self.streams.altScreen.isSome = true := by
      simpa [htype, screenSlot, isOpen] using h
    obtain ⟨existing, hexisting⟩ := Option.isSome_iff_exists.mp hopen
    simp only [hexisting]
    exact ⟨_, rfl⟩

theorem setupScreen_free {stream : StreamDescriptionScreen} {openings : Openings} {slot : Slot}
    (hslot : screenSlot stream.streamType = some slot) (hfree : isOpen self.streams slot = false) :
    self.setupScreen stream openings =
      if ¬ openings.openScreen then (self, .error (.code .internalServerError))
      else if ¬ openings.initSink then (self, .error (.code .internalServerError))
      else if ¬ self.streams.mediaClock then (self, .error (.code .internalServerError))
      else
        match openings.acceptTimeout with
        | .error error => (self, .error error)
        | .ok port =>
          (⟨self.state, storeScreen self.streams slot
              ⟨stream.streamConnectionId, stream.latencyMs.getD 0, port⟩⟩,
            .ok (.newScreen stream.streamType port)) := by
  unfold AirPlayReceiver.setupScreen
  cases htype : stream.streamType <;> rw [htype] at hslot <;> cases hslot
  case screen =>
    have hnone : self.streams.screen = none := Option.not_isSome_iff_eq_none.mp (by
      rw [show self.streams.screen.isSome = false from hfree]
      decide)
    simp only [hnone]
    rfl
  case altScreen =>
    have hnone : self.streams.altScreen = none := Option.not_isSome_iff_eq_none.mp (by
      rw [show self.streams.altScreen.isSome = false from hfree]
      decide)
    simp only [hnone]
    rfl

theorem setupScreen_spec (self : AirPlayReceiver) (stream : StreamDescriptionScreen)
    (openings : Openings) :
    Settles self (screenSlot stream.streamType) (screenOpens self.streams.mediaClock openings)
      (self.setupScreen stream openings) := by
  cases hfree : (screenSlot stream.streamType).any (!isOpen self.streams ·) with
  | false =>
    obtain ⟨error, hrefused⟩ := setupScreen_refused openings hfree
    rw [hrefused]
    exact .refused (by rw [hfree]; rfl)
  | true =>
    obtain ⟨slot, hslot, hnot⟩ := (Option.any_eq_true _ _).mp hfree
    rw [Bool.not_eq_true'] at hnot
    rw [setupScreen_free hslot hnot, hslot]
    unfold screenOpens
    cases hopen : openings.openScreen with
    | false => exact .refused (by simp)
    | true =>
      cases hinit : openings.initSink with
      | false => exact .refused (by simp)
      | true =>
        cases hclock : self.streams.mediaClock with
        | false => exact .refused (by simp)
        | true =>
          cases haccept : openings.acceptTimeout with
          | error error => exact .refused (by simp [Except.isOk, Except.toBool])
          | ok port =>
            exact Or.inl ⟨slot, _, _, rfl, rfl, rfl, opened_storeScreen hslot hnot _⟩

/-- **One stream**: it is opened in its slot, or the receiver stays as it is. -/
theorem setupStream_spec (self : AirPlayReceiver) (stream : StreamDescription)
    (openings : Openings) :
    Settles self (slotOf stream) (opens self.streams.mediaClock openings stream)
      (self.setupStream stream openings) := by
  cases stream with
  | audioLegacy stream => exact setupAudio_spec self stream.asModern openings
  | audio stream => exact setupAudio_spec self stream openings
  | screen stream => exact setupScreen_spec self stream openings
  | invalid => exact .refused rfl

/-! ## The loop -/

/-- What can be opened after a stream was opened. -/
theorem Opened.canOpen_iff {before after : AirPlayReceiver} {slot : Slot}
    (h : Opened before slot after) (item : StreamDescription × Openings) :
    canOpen after.streams item = true ↔
      canOpen before.streams item = true ∧ slotOf item.1 ≠ some slot := by
  unfold canOpen
  rw [h.clock]
  cases slotOf item.1 with
  | none => simp
  | some s =>
    rw [Option.any_some, Option.any_some, h.slots]
    by_cases hs : s = slot
    · simp [hs]
    · simp [hs]

theorem Opened.allOpen_iff {before after : AirPlayReceiver} {slot : Slot}
    (h : Opened before slot after) (item : StreamDescription × Openings)
    (rest : List (StreamDescription × Openings)) (hslot : slotOf item.1 = some slot)
    (hitem : canOpen before.streams item = true) :
    AllOpen after.streams rest ↔ AllOpen before.streams (item :: rest) := by
  constructor
  · rintro ⟨heach, hapart⟩
    refine ⟨fun other hother => ?_, List.nodup_cons.mpr ⟨?_, hapart⟩⟩
    · rcases List.mem_cons.mp hother with rfl | hmem
      · exact hitem
      · exact ((h.canOpen_iff other).mp (heach other hmem)).1
    · intro hmem
      obtain ⟨other, hother, hsame⟩ := List.mem_map.mp hmem
      exact ((h.canOpen_iff other).mp (heach other hother)).2 (hsame.trans hslot)
  · rintro ⟨heach, hapart⟩
    obtain ⟨hfirst, hrest⟩ := List.nodup_cons.mp hapart
    refine ⟨fun other hother => ?_, hrest⟩
    rw [h.canOpen_iff]
    refine ⟨heach other (List.mem_cons_of_mem _ hother), fun hsame => hfirst ?_⟩
    exact List.mem_map.mpr ⟨other, hother, hsame.trans hslot.symm⟩

/-- **The loop** succeeds when all streams can be opened, and closes none. -/
theorem setupStreams_spec (self : AirPlayReceiver)
    (items : List (StreamDescription × Openings)) :
    ((∃ responses, (self.setupStreams items).2 = .ok responses) ↔ AllOpen self.streams items) ∧
      ∀ s, isOpen self.streams s = true → isOpen (self.setupStreams items).1.streams s = true := by
  induction items generalizing self with
  | nil =>
    refine ⟨iff_of_true ⟨[], rfl⟩ ⟨fun _ hmem => ?_, List.nodup_nil⟩, fun s hs => hs⟩
    cases hmem
  | cons item rest ih =>
    obtain ⟨stream, openings⟩ := item
    unfold AirPlayReceiver.setupStreams
    rcases setupStream_spec self stream openings with
      ⟨slot, sdr, next, hslot, hable, heq, hopened⟩ | ⟨hnot, error, heq⟩
    · have hitem : canOpen self.streams (stream, openings) = true := by
        unfold canOpen
        rw [hslot, hable, Option.any_some, hopened.free]
        rfl
      obtain ⟨hok, hkept⟩ := ih next
      rw [hopened.allOpen_iff (stream, openings) rest hslot hitem] at hok
      rw [heq]
      dsimp only
      rcases hresult : next.setupStreams rest with ⟨last, error | responses⟩
      · rw [hresult] at hok hkept
        refine ⟨iff_of_false ?_ (mt hok.mpr ?_), fun s hs => hkept s ?_⟩
        · rintro ⟨_, hbad⟩
          cases hbad
        · rintro ⟨_, hbad⟩
          cases hbad
        · rw [hopened.slots, hs, Bool.or_true]
      · rw [hresult] at hok hkept
        refine ⟨iff_of_true ⟨_, rfl⟩ (hok.mp ⟨_, rfl⟩), fun s hs => hkept s ?_⟩
        rw [hopened.slots, hs, Bool.or_true]
    · rw [heq]
      refine ⟨iff_of_false ?_ fun hall => ?_, fun s hs => hs⟩
      · rintro ⟨_, hbad⟩
        cases hbad
      · have hfirst : canOpen self.streams (stream, openings) = true :=
          hall.each _ List.mem_cons_self
        unfold canOpen at hfirst
        rw [hnot] at hfirst
        cases hfirst

/-- If the first stream fails, nothing changes; otherwise its slot is open in the end. -/
theorem setupStreams_first (self : AirPlayReceiver) (item : StreamDescription × Openings)
    (rest : List (StreamDescription × Openings)) :
    (canOpen self.streams item = false ∧ (self.setupStreams (item :: rest)).1 = self) ∨
      (canOpen self.streams item = true ∧
        ∃ slot, isOpen self.streams slot = false ∧
          isOpen (self.setupStreams (item :: rest)).1.streams slot = true) := by
  obtain ⟨stream, openings⟩ := item
  unfold AirPlayReceiver.setupStreams canOpen
  rcases setupStream_spec self stream openings with
    ⟨slot, sdr, next, hslot, hable, heq, hopened⟩ | ⟨hnot, error, heq⟩
  · have hin : isOpen next.streams slot = true := by
      rw [hopened.slots, decide_eq_true rfl, Bool.true_or]
    have hlast := (setupStreams_spec next rest).2 slot hin
    rw [heq]
    refine Or.inr ⟨by rw [hslot, hable, Option.any_some, hopened.free]; rfl, slot, hopened.free, ?_⟩
    dsimp only
    rcases hresult : next.setupStreams rest with ⟨last, error | responses⟩
    · rw [hresult] at hlast
      exact hlast
    · rw [hresult] at hlast
      exact hlast
  · rw [heq]
    exact Or.inl ⟨hnot, rfl⟩

/-! ## The request -/

/-- No stream of the request is opened, or all are and the answer goes out. -/
def OpensNoneOrAll (self : AirPlayReceiver) (req : SetupRequest) : Prop :=
  self.state = .preRecord ∨ self.state = .postRecord →
    ∀ items, req.streams = .ok items →
      (∀ first ∈ items.head?, canOpen self.streams first = false) ∨
        (AllOpen self.streams items ∧ req.setPlist = .ok ())

theorem openStreams_ne {before after : Streams} {slot : Slot} (hbefore : isOpen before slot = false)
    (hafter : isOpen after slot = true) : openStreams after ≠ openStreams before := by
  intro heq
  obtain ⟨hmain, hrest⟩ := Prod.mk.inj heq
  obtain ⟨halt, hrest⟩ := Prod.mk.inj hrest
  obtain ⟨hscreen, haltScreen⟩ := Prod.mk.inj hrest
  have hsame : isOpen after slot = isOpen before slot := by
    cases slot <;> simp only [isOpen, hmain, halt, hscreen, haltScreen]
  rw [hsame, hbefore] at hafter
  cases hafter

/-- The request in a session that is set up. -/
theorem respondSetup_streams {self : AirPlayReceiver} {req : SetupRequest}
    (hstate : self.state = .preRecord ∨ self.state = .postRecord)
    {items : List (StreamDescription × Openings)} (hitems : req.streams = .ok items) :
    (self.respondSetup req).1 = (self.setupStreams items).1 ∧
      ((∃ error, (self.respondSetup req).2 = .error error) ↔
        ¬ ((∃ responses, (self.setupStreams items).2 = .ok responses) ∧
          req.setPlist = .ok ())) := by
  unfold AirPlayReceiver.respondSetup
  rcases hstate with hstate | hstate <;> rw [hstate] <;> dsimp only <;> rw [hitems] <;>
    dsimp only <;> rcases self.setupStreams items with ⟨last, error | responses⟩ <;>
    rcases req.setPlist with error' | _ <;> simp

/-- **A failed SETUP** leaves the open streams as they were exactly when its first stream cannot be
opened, or when it does not fail: all its streams can be opened and the answer goes out. -/
theorem setup_leaves_streams (self : AirPlayReceiver) (req : SetupRequest) :
    (∀ error, (self.respondSetup req).2 = .error error →
      openStreams (self.respondSetup req).1.streams = openStreams self.streams) ↔
        OpensNoneOrAll self req := by
  by_cases hstate : self.state = .preRecord ∨ self.state = .postRecord
  · cases hitems : req.streams with
    | error error =>
      have hsame : (self.respondSetup req).1 = self := by
        unfold AirPlayReceiver.respondSetup
        rcases hstate with hstate | hstate <;> rw [hstate] <;> dsimp only <;> rw [hitems]
      refine iff_of_true (fun _ _ => by rw [hsame]) fun _ items hok => ?_
      rw [hitems] at hok
      cases hok
    | ok items =>
      obtain ⟨hlast, herror⟩ := respondSetup_streams hstate hitems
      have hloop := (setupStreams_spec self items).1
      rw [hlast]
      cases items with
      | nil =>
        refine iff_of_true (fun _ _ => rfl) fun _ items hok => Or.inl ?_
        rw [hitems] at hok
        obtain rfl := Except.ok.inj hok
        intro first hfirst
        cases hfirst
      | cons item rest =>
        have hcondition : OpensNoneOrAll self req ↔ (canOpen self.streams item = false ∨
            (AllOpen self.streams (item :: rest) ∧ req.setPlist = .ok ())) := by
          constructor
          · intro h
            exact (h hstate _ hitems).imp_left fun hfirst => hfirst item rfl
          · intro h _ items hok
            rw [hitems] at hok
            obtain rfl := Except.ok.inj hok
            refine h.imp_left fun hfirst first hmem => ?_
            obtain rfl := Option.some.inj hmem
            exact hfirst
        rw [hcondition]
        rcases setupStreams_first self item rest with ⟨hnot, hsame⟩ | ⟨hcan, slot, hfree, hopen⟩
        · exact iff_of_true (fun _ _ => by rw [hsame]) (Or.inl hnot)
        · have hchanged := openStreams_ne hfree hopen
          rw [hcan, ← hloop, or_iff_right (by decide)]
          constructor
          · intro hkept
            by_contra hfails
            obtain ⟨error, hbad⟩ := herror.mpr hfails
            exact hchanged (hkept error hbad)
          · intro hall error hbad
            exact absurd hall (herror.mp ⟨error, hbad⟩)
  · have hsame : openStreams (self.respondSetup req).1.streams = openStreams self.streams := by
      unfold AirPlayReceiver.respondSetup AirPlayReceiver.respondSetupInitial
      cases hcase : self.state with
      | preRecord => exact absurd (Or.inl hcase) hstate
      | postRecord => exact absurd (Or.inr hcase) hstate
      | pairing | closed => rfl
      | initialSetup =>
        dsimp only
        rcases req.initialSetup with error | _
        · rfl
        · rcases req.setPlist with error | _ <;> rfl
    exact iff_of_true (fun _ _ => hsame) fun hbad => absurd hbad hstate

/-- A stream whose sinks, sockets and codecs are all there. -/
def allThere : Openings where
  initCodec := .ok ()
  openAudio := true
  initCodecRecord := .ok ()
  openMicrophone := true
  newReceiver := some (7000, 7001)
  openScreen := true
  initSink := true
  acceptTimeout := .ok 7002

/-- The main audio is opened, and then the codec of the other audio stream is not known. -/
def halfWay : SetupRequest where
  initialSetup := .ok ()
  streams := .ok [(.audio ⟨1, .mainAudio, 100, none, none, false⟩, allThere),
    (.audio ⟨2, .altAudio, 100, none, none, false⟩,
      { allThere with initCodec := .error .notSupported })]
  setPlist := .ok ()

/-- **Half a SETUP** stays in the session. -/
theorem half_setup_stays :
    ¬ ∀ (self : AirPlayReceiver) (req : SetupRequest) (error : RtspError),
      (self.respondSetup req).2 = .error error →
        openStreams (self.respondSetup req).1.streams = openStreams self.streams := by
  intro h
  have hkept := h ⟨.preRecord, { mediaClock := true }⟩ halfWay .notSupported rfl
  exact absurd hkept (by decide)

end Catplay.Analysis.Receiver
