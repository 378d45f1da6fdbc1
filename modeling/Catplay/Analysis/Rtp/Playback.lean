import Catplay.Analysis.Ring.Samples
import Catplay.Analysis.Rtp.Pacing
import Catplay.Library.Run
import Catplay.Model.Rtp.RtpPlayer

/-!
# The playback timeline

The player counts frames by the timestamps of the packets and samples by the write head of the
ring. The two stay together (`OnTime`) in every run in which the decoder answers in whole frames
(`InTime`): a concealment is no longer than the gap that is left, and no packet is half the
circle away. Then every packet stands where its timestamp says.
-/

set_option autoImplicit false

namespace Catplay.Analysis.Rtp

open Catplay.Library.Run Catplay.Model.Ring Catplay.Model.Rtp Catplay.Model.Rtp.RtpPlayer
open Catplay.Analysis.Ring

variable {T E : Type}

/-! ## Decoders -/

/-- What the trait allows a call: it writes no more than the slice has room for, and reports no
more than it wrote. -/
structure DecoderCallAllowed {R : Type} (capacity : Nat) (samples : R → Nat)
    (call : DecoderCall T E R) : Prop where
  fits : call.output.length ≤ capacity
  written : ∀ answer, call.result = .ok answer → samples answer ≤ call.output.length

structure DecoderAllowed (capacity : Nat) (arrival : Arrival T E) : Prop where
  conceal : ∀ i, DecoderCallAllowed capacity id (arrival.concealLostPacket i)
  decode : DecoderCallAllowed capacity Prod.fst arrival.decode

/-- The samples of a packet that the player commits. -/
def decodedSamples (arrival : Arrival T E) : List T :=
  match arrival.decode.result with
  | .error _ => []
  | .ok (samples, consumed) =>
    if consumed = arrival.packet.payload.length then arrival.decode.output.take samples else []

/-- The samples that a concealment commits. -/
def concealedSamples (call : DecoderCall T E Nat) : List T :=
  match call.result with
  | .error _ => []
  | .ok samples => call.output.take samples

theorem concealedSamples_eq_nil {call : DecoderCall T E Nat}
    (hnone : ∀ samples, call.result = .ok samples → samples = 0) : concealedSamples call = [] := by
  unfold concealedSamples
  cases hresult : call.result with
  | error error => rfl
  | ok samples =>
    rw [hnone samples hresult]
    rfl

/-- No call leaves more than `count` samples behind those that are committed. -/
structure LeavesAtMost (count : Nat) (arrival : Arrival T E) : Prop where
  conceal : ∀ i, (arrival.concealLostPacket i).output.length ≤
    (concealedSamples (arrival.concealLostPacket i)).length + count
  decode : arrival.decode.output.length ≤ (decodedSamples arrival).length + count

/-- **Concealment in whole frames**, of no more frames than are left of the gap; an error or no
samples leave the rest to silence. -/
inductive ConcealsWhole (frameSize : Nat) : Nat → (Nat → DecoderCall T E Nat) → Prop
  | filled (calls) : ConcealsWhole frameSize 0 calls
  | silent {gap : Nat} {calls} (hnone : ∀ samples, (calls 0).result = .ok samples → samples = 0) :
      ConcealsWhole frameSize (gap + 1) calls
  | frames {gap frames : Nat} {calls} (hresult : (calls 0).result = .ok (frames * frameSize))
      (hpositive : 0 < frames) (hfits : frames ≤ gap)
      (hrest : ConcealsWhole frameSize (gap - frames) fun i => calls (i + 1)) :
      ConcealsWhole frameSize gap calls

/-- The timestamp that the next packet is compared with. -/
def lastTs (s : RtpPlayer T) (arrival : Arrival T E) : ModSeq 32 :=
  s.lastDecodedTs.getD arrival.packet.timestamp

def IsLate (s : RtpPlayer T) (arrival : Arrival T E) : Prop :=
  arrival.packet.timestamp.lt (lastTs s arrival) = true

/-- The frames that are missing before a packet. -/
def missing (s : RtpPlayer T) (arrival : Arrival T E) : Nat :=
  (arrival.packet.timestamp.distance (lastTs s arrival)).toNat

/-- **The condition on a packet.** Its timestamp is comparable; and unless it is late, the gap is
concealed in whole frames, it decodes to whole frames, and the position stays a `usize`. -/
structure InTime (s : RtpPlayer T) (arrival : Arrival T E) : Prop where
  comparable : arrival.packet.timestamp - lastTs s arrival ≠ ModSeq.half 32
  conceals : ¬IsLate s arrival →
    ConcealsWhole s.frameSizeInSamples (missing s arrival) arrival.concealLostPacket
  whole : ¬IsLate s arrival → s.frameSizeInSamples ∣ (decodedSamples arrival).length
  room : ¬IsLate s arrival →
    s.ring.writeHead + missing s arrival * s.frameSizeInSamples +
      (decodedSamples arrival).length < 2 ^ 64

/-! ## Filling a gap -/

/-- A committed concealment takes its samples to the timeline. -/
theorem commitConcealed {r : RingBuffer T} {cells : List T} {scribbled count : Nat}
    (h : Holds r cells scribbled) (hscribbled : scribbled ≤ count)
    {call : DecoderCall T E Nat} {samples : Nat} (hresult : call.result = .ok samples)
    (hpositive : 0 < samples) (hallowed : DecoderCallAllowed r.capacity id call)
    (hleaves : call.output.length ≤ (concealedSamples call).length + count)
    (hroom : r.writeHead + samples < 2 ^ 64) :
    ∃ scribbled', scribbled' ≤ count ∧ Holds ((r.writeInto call.output).writeCommit samples)
      (cells ++ concealedSamples call) scribbled' := by
  have hwritten : samples ≤ call.output.length := hallowed.written samples hresult
  have hconcealed : concealedSamples call = call.output.take samples := by
    unfold concealedSamples
    rw [hresult]
  rw [hconcealed] at hleaves ⊢
  rw [List.length_take, Nat.min_eq_left hwritten] at hleaves
  exact ⟨_, by omega, h.writeCommit hpositive hwritten hallowed.fits hroom⟩

/-- Silence fills what is left of the gap. -/
theorem silenceFills [Inhabited T] {r : RingBuffer T} {cells : List T} {scribbled count : Nat}
    (h : Holds r cells scribbled) (hscribbled : scribbled ≤ count)
    {call : DecoderCall T E Nat} (hallowed : DecoderCallAllowed r.capacity id call)
    (hleaves : call.output.length ≤ count) {frameSize gap : Nat}
    (hroom : r.writeHead + gap * frameSize < 2 ^ 64) :
    ∃ r' fill scribbled',
      (r.writeInto call.output).writeDefault (gap * frameSize % 2 ^ 64) = r' ∧
        Holds r' (cells ++ fill) scribbled' ∧ scribbled' ≤ count ∧
        fill.length = gap * frameSize ∧ r'.capacity = r.capacity := by
  rw [Nat.mod_eq_of_lt (by omega)]
  have hwritten := h.writeInto hallowed.fits
  obtain ⟨scribbled', hdefault, hle⟩ := hwritten.writeDefault (gap * frameSize) hroom
  refine ⟨_, List.replicate (gap * frameSize) default, scribbled', rfl, hdefault, by omega,
    List.length_replicate, ?_⟩
  unfold RingBuffer.writeDefault
  split <;> rfl

/-- **The gap is filled with exactly the missing samples**, in no more turns than frames. -/
theorem writeSilenceGap_spec [Inhabited T] {frameSize gap : Nat} {calls : Nat → DecoderCall T E Nat}
    (hframe : frameSize ≠ 0) (hwhole : ConcealsWhole frameSize gap calls) {turns count : Nat}
    (hturns : gap ≤ turns) {r : RingBuffer T} {cells : List T} {scribbled : Nat}
    (h : Holds r cells scribbled) (hscribbled : scribbled ≤ count)
    (hallowed : ∀ i, DecoderCallAllowed r.capacity id (calls i))
    (hleaves : ∀ i, (calls i).output.length ≤ (concealedSamples (calls i)).length + count)
    (hroom : r.writeHead + gap * frameSize < 2 ^ 64) :
    ∃ r' fill scribbled', writeSilenceGap frameSize turns gap r calls = some r' ∧
      Holds r' (cells ++ fill) scribbled' ∧ scribbled' ≤ count ∧
      fill.length = gap * frameSize ∧ r'.capacity = r.capacity := by
  induction hwhole generalizing turns r cells scribbled with
  | filled calls =>
    refine ⟨r, [], scribbled, ?_, ?_, hscribbled, ?_, rfl⟩
    · cases turns <;> rfl
    · rw [List.append_nil]
      exact h
    · rw [Nat.zero_mul]
      rfl
  | @silent gap calls hnone =>
    obtain ⟨turns, rfl⟩ : ∃ t, turns = t + 1 := ⟨turns - 1, by omega⟩
    have hleft := hleaves 0
    rw [concealedSamples_eq_nil hnone, List.length_nil, Nat.zero_add] at hleft
    obtain ⟨r', fill, scribbled', hdefault, hspec⟩ :=
      silenceFills h hscribbled (hallowed 0) hleft hroom
    refine ⟨r', fill, scribbled', ?_, hspec⟩
    unfold writeSilenceGap
    dsimp only
    cases hresult : (calls 0).result with
    | error error => exact congrArg some hdefault
    | ok samples =>
      dsimp only
      rw [if_neg (by rw [hnone samples hresult]; exact Nat.lt_irrefl 0)]
      exact congrArg some hdefault
  | @frames gap frames calls hresult hpositive hfits hrest ih =>
    obtain ⟨turns, rfl⟩ : ∃ t, turns = t + 1 := ⟨turns - 1, by omega⟩
    have hpos : 0 < frames * frameSize := Nat.mul_pos hpositive (by omega)
    have hsum : (gap - frames) * frameSize + frames * frameSize = gap * frameSize := by
      rw [← Nat.add_mul, Nat.sub_add_cancel hfits]
    obtain ⟨scribbled₁, hle, hcommitted⟩ := commitConcealed h hscribbled hresult hpos (hallowed 0)
      (hleaves 0) (by omega)
    have hlength : (concealedSamples (calls 0)).length = frames * frameSize := by
      unfold concealedSamples
      rw [hresult]
      exact List.length_take_of_le ((hallowed 0).written _ hresult)
    have hhead : ((r.writeInto (calls 0).output).writeCommit (frames * frameSize)).writeHead =
        r.writeHead + frames * frameSize := by
      rw [hcommitted.written, List.length_append, hlength, h.written]
    obtain ⟨r', fill, scribbled', hrun, hholds, hscribbled', hfill, hcapacity⟩ :=
      @ih turns (by omega) _ _ _ hcommitted hle (fun i => hallowed (i + 1))
        (fun i => hleaves (i + 1)) (by omega)
    refine ⟨r', concealedSamples (calls 0) ++ fill, scribbled', ?_, ?_, hscribbled', ?_, hcapacity⟩
    · obtain ⟨gap, rfl⟩ : ∃ g, gap = g + 1 := ⟨gap - 1, by omega⟩
      unfold writeSilenceGap
      dsimp only
      rw [hresult]
      dsimp only
      rw [if_pos hpos, Nat.mul_div_cancel _ (by omega), Nat.min_eq_left hfits]
      exact hrun
    · rw [← List.append_assoc]
      exact hholds
    · rw [List.length_append, hlength, hfill]
      omega

/-! ## Decoding a packet -/

/-- A call of `decode` commits nothing, or the samples that it reports. -/
theorem decodeInto_cases (s : RtpPlayer T) (arrival : Arrival T E) :
    (decodedSamples arrival = [] ∧
      s.decodeInto arrival = { s with ring := s.ring.writeInto arrival.decode.output }) ∨
    ∃ samples consumed, arrival.decode.result = .ok (samples, consumed) ∧ 0 < samples ∧
      decodedSamples arrival = arrival.decode.output.take samples ∧
      s.decodeInto arrival =
        { s with
          ring := (s.ring.writeInto arrival.decode.output).writeCommit samples
          start := s.start.or (some arrival.decodeStart)
          lastDecodedTs := some (arrival.packet.timestamp +
            BitVec.ofNat 32 (samples / s.frameSizeInSamples)) } := by
  unfold decodedSamples decodeInto
  cases hresult : arrival.decode.result with
  | error error => exact Or.inl ⟨rfl, rfl⟩
  | ok answer =>
    obtain ⟨samples, consumed⟩ := answer
    dsimp only
    by_cases hzero : samples = 0
    · left
      rw [if_pos hzero, hzero, List.take_zero, ite_self]
      exact ⟨rfl, rfl⟩
    · rw [if_neg hzero]
      by_cases hconsumed : consumed = arrival.packet.payload.length
      · right
        rw [if_pos hconsumed, if_neg (not_not_intro hconsumed)]
        exact ⟨samples, consumed, rfl, Nat.pos_of_ne_zero hzero, rfl, rfl⟩
      · left
        rw [if_neg hconsumed, if_pos hconsumed]
        exact ⟨rfl, rfl⟩

/-- **A decoded packet** goes to the timeline, and the timestamp moves by its frames. -/
theorem decodeInto_spec {s : RtpPlayer T} {arrival : Arrival T E} {cells : List T}
    {scribbled count : Nat} (h : Holds s.ring cells scribbled) (hscribbled : scribbled ≤ count)
    (hts : s.lastDecodedTs = some arrival.packet.timestamp)
    (hallowed : DecoderCallAllowed s.ring.capacity Prod.fst arrival.decode)
    (hleaves : arrival.decode.output.length ≤ (decodedSamples arrival).length + count)
    (hroom : s.ring.writeHead + (decodedSamples arrival).length < 2 ^ 64) :
    (∃ scribbled', Holds (s.decodeInto arrival).ring (cells ++ decodedSamples arrival) scribbled' ∧
      scribbled' ≤ count) ∧
      (s.decodeInto arrival).lastDecodedTs = some (arrival.packet.timestamp +
        BitVec.ofNat 32 ((decodedSamples arrival).length / s.frameSizeInSamples)) ∧
      (s.decodeInto arrival).frameSizeInSamples = s.frameSizeInSamples ∧
      (s.decodeInto arrival).ring.capacity = s.ring.capacity := by
  obtain ⟨hnil, hdecode⟩ | ⟨samples, consumed, hresult, hpositive, hdecoded, hdecode⟩ :=
    decodeInto_cases s arrival
  · rw [hnil, List.length_nil, Nat.zero_add] at hleaves
    rw [hdecode, hnil, List.append_nil, List.length_nil, Nat.zero_div, hts]
    refine ⟨⟨_, h.writeInto hallowed.fits, by omega⟩, ?_, rfl, rfl⟩
    exact congrArg some (BitVec.add_zero _).symm
  · have hwritten : samples ≤ arrival.decode.output.length := hallowed.written _ hresult
    have hlength : (decodedSamples arrival).length = samples := by
      rw [hdecoded]
      exact List.length_take_of_le hwritten
    rw [hlength] at hleaves hroom
    rw [hdecode, hlength, hdecoded]
    exact ⟨⟨_, h.writeCommit hpositive hwritten hallowed.fits hroom, by omega⟩, rfl, rfl, rfl⟩

/-- **A packet that is not late**: the gap is filled, the packet stands behind it. -/
theorem accept_spec [Inhabited T] {s : RtpPlayer T} {arrival : Arrival T E} {cells : List T}
    {scribbled count gap turns : Nat} (h : Holds s.ring cells scribbled)
    (hscribbled : scribbled ≤ count) (hturns : gap ≤ turns)
    (hallowed : DecoderAllowed s.ring.capacity arrival) (hleaves : LeavesAtMost count arrival)
    (hconceals : ConcealsWhole s.frameSizeInSamples gap arrival.concealLostPacket)
    (hroom : s.ring.writeHead + gap * s.frameSizeInSamples + (decodedSamples arrival).length <
      2 ^ 64) :
    ∃ t fill scribbled', s.accept turns arrival (gap : Int) = some t ∧
      Holds t.ring (cells ++ fill ++ decodedSamples arrival) scribbled' ∧ scribbled' ≤ count ∧
      fill.length = gap * s.frameSizeInSamples ∧
      t.lastDecodedTs = some (arrival.packet.timestamp +
        BitVec.ofNat 32 ((decodedSamples arrival).length / s.frameSizeInSamples)) ∧
      t.frameSizeInSamples = s.frameSizeInSamples ∧ t.ring.capacity = s.ring.capacity := by
  obtain ⟨r, fill, scribbled₁, hfilled, hholds, hle, hlength, hcapacity⟩ :=
    writeSilenceGap_spec s.nonZero hconceals hturns h hscribbled hallowed.conceal hleaves.conceal
      (by omega)
  have hfill : (if (gap : Int) > 0 then
      writeSilenceGap s.frameSizeInSamples turns (gap : Int).toNat s.ring arrival.concealLostPacket
      else some s.ring) = some r := by
    rw [Int.toNat_natCast]
    by_cases hgap : 0 < gap
    · rw [if_pos (by omega)]
      exact hfilled
    · obtain rfl : gap = 0 := by omega
      rw [if_neg (by omega)]
      cases turns <;> exact hfilled
  unfold accept
  dsimp only
  rw [hfill]
  have hhead : r.writeHead = s.ring.writeHead + gap * s.frameSizeInSamples := by
    rw [hholds.written, List.length_append, hlength, h.written]
  obtain ⟨⟨scribbled', hdecoded, hle'⟩, hts, hframe, hcap⟩ := decodeInto_spec
    (s := { s with
      ring := r
      lostCounter := s.lostCounter + s.lostSince arrival.packet.sequenceNumber
      lastDecodedTs := some arrival.packet.timestamp
      lastDecodedSeq := some arrival.packet.sequenceNumber })
    hholds hle rfl (by rw [hcapacity]; exact hallowed.decode) hleaves.decode
    (by show r.writeHead + _ < _; omega)
  exact ⟨_, fill, scribbled', rfl, hdecoded, hle', hlength, hts, hframe, hcap.trans hcapacity⟩

/-! ## Runs -/

/-- A decoded packet on the timeline, which counts frames from the first timestamp. -/
structure Placed (T : Type) where
  timestamp : ModSeq 32
  start : Nat
  samples : List T

/-- The first timestamp, the frames from it to the last decoded one, and the packets that were
not late. -/
structure Played (T : Type) where
  first : Option (ModSeq 32)
  frames : Nat
  packets : List (Placed T)

/-- What a push adds to the history. The frames never wrap: they go on by what is missing. -/
def notePush (s : RtpPlayer T) (arrival : Arrival T E) (_ : RtpPlayer T) (h : Played T) :
    Played T :=
  let ts := arrival.packet.timestamp
  let first := h.first.getD ts
  if ts.lt (lastTs s arrival) then { h with first := some first }
  else
    let start := h.frames + missing s arrival
    { first := some first
      frames := start + (decodedSamples arrival).length / s.frameSizeInSamples
      packets := h.packets ++ [⟨ts, start, decodedSamples arrival⟩] }

/-- **The timeline is kept.** The write head counts the frames up to the last decoded timestamp;
and the ring holds a timeline on which every packet stands at its own position. -/
structure OnTime (frameSize capacity count : Nat) (s : RtpPlayer T) (h : Played T) : Prop where
  sameFrames : s.frameSizeInSamples = frameSize
  sameCapacity : s.ring.capacity = capacity
  last : s.lastDecodedTs = h.first.map fun first => first + BitVec.ofNat 32 h.frames
  fresh : h.first = none → h.frames = 0 ∧ h.packets = []
  position : s.ring.writeHead = h.frames * frameSize
  timestamps : ∀ first, h.first = some first → ∀ packet ∈ h.packets,
    packet.timestamp = first + BitVec.ofNat 32 packet.start
  holds : ∃ cells scribbled, Holds s.ring cells scribbled ∧ scribbled ≤ count ∧
    ∀ packet ∈ h.packets, ∀ i, i < packet.samples.length →
      cells[packet.start * frameSize + i]? = packet.samples[i]?

/-- Samples stand at a position of the ring, each as long as it is one of the last positions. -/
def StandsAt (ring : RingBuffer T) (count position : Nat) (samples : List T) : Prop :=
  ∀ i, i < samples.length → ring.writeHead + count ≤ position + i + ring.capacity →
    Both ring.ring ring.capacity ((position + i) % ring.capacity) samples[i]?

/-- What a push does: a late packet changes nothing; else the write head moves by exactly the
missing frames and the decoded samples. -/
def Advances (turns : Nat) [Inhabited T] (s : RtpPlayer T) (arrival : Arrival T E) : Prop :=
  ∃ t, s.push turns arrival = some t ∧
    (IsLate s arrival → t = s) ∧
    (¬IsLate s arrival → t.ring.writeHead = s.ring.writeHead +
      missing s arrival * s.frameSizeInSamples + (decodedSamples arrival).length)

theorem OnTime.standsAt {frameSize capacity count : Nat} {s : RtpPlayer T} {h : Played T}
    (hontime : OnTime frameSize capacity count s h) {packet : Placed T}
    (hpacket : packet ∈ h.packets) :
    StandsAt s.ring count (packet.start * frameSize) packet.samples := by
  obtain ⟨cells, scribbled, hholds, hle, hcells⟩ := hontime.holds
  intro i hi hwindow
  have hcell := hcells packet hpacket i hi
  have hin : packet.start * frameSize + i < cells.length := by
    by_contra hout
    rw [List.getElem?_eq_none (by omega), List.getElem?_eq_getElem hi] at hcell
    cases hcell
  have hwritten := hholds.written
  rw [← hcell]
  exact hholds.cells _ hin (by omega)

/-- The player with the base of its timeline, which the first packet gives. -/
def based (s : RtpPlayer T) (arrival : Arrival T E) : RtpPlayer T :=
  if s.lastDecodedTs.isNone then
    { s with
      lastDecodedTs := some arrival.packet.timestamp
      lastDecodedSeq := some arrival.packet.sequenceNumber }
  else s

theorem push_eq [Inhabited T] (turns : Nat) (s : RtpPlayer T) (arrival : Arrival T E) :
    s.push turns arrival =
      if arrival.packet.timestamp.lt (lastTs s arrival) then some s
      else (based s arrival).accept turns arrival
        (arrival.packet.timestamp.distance (lastTs s arrival)) := by
  cases hlast : s.lastDecodedTs with
  | none => simp [push, pushDecode, based, lastTs, hlast, lt_irrefl]
  | some last => simp [push, pushDecode, based, lastTs, hlast]

theorem based_fields (s : RtpPlayer T) (arrival : Arrival T E) :
    (based s arrival).ring = s.ring ∧
      (based s arrival).frameSizeInSamples = s.frameSizeInSamples := by
  unfold based
  split <;> exact ⟨rfl, rfl⟩

/-- The timestamp that a packet is compared with, on the timeline. -/
theorem lastTs_eq {frameSize capacity count : Nat} {s : RtpPlayer T} {h : Played T}
    (hontime : OnTime frameSize capacity count s h) (arrival : Arrival T E) :
    lastTs s arrival = h.first.getD arrival.packet.timestamp + BitVec.ofNat 32 h.frames := by
  unfold lastTs
  rw [hontime.last]
  cases hfirst : h.first with
  | none =>
    rw [(hontime.fresh hfirst).1]
    exact (BitVec.add_zero _).symm
  | some first => rfl

/-- A late packet leaves the player and the timeline. -/
theorem push_late [Inhabited T] {frameSize capacity count : Nat} (turns : Nat) {s : RtpPlayer T}
    {h : Played T} (hontime : OnTime frameSize capacity count s h) {arrival : Arrival T E}
    (hlate : IsLate s arrival) :
    s.push turns arrival = some s ∧ notePush s arrival s h = h := by
  have hlt : arrival.packet.timestamp.lt (lastTs s arrival) = true := hlate
  refine ⟨?_, ?_⟩
  · rw [push_eq, if_pos hlt]
  · unfold notePush
    dsimp only
    rw [if_pos hlt]
    cases hfirst : h.first with
    | none =>
      -- a first packet is compared with itself
      rw [lastTs_eq hontime, hfirst, (hontime.fresh hfirst).1, Option.getD_none] at hlt
      rw [show BitVec.ofNat 32 0 = 0#32 from rfl, BitVec.add_zero, lt_irrefl] at hlt
      cases hlt
    | some first =>
      rw [Option.getD_some, ← hfirst]

/-- **One push** of a packet that is in time keeps the timeline. -/
theorem push_onTime [Inhabited T] {frameSize capacity count turns : Nat} (hturns : 2 ^ 31 ≤ turns)
    {s : RtpPlayer T} {h : Played T} (hontime : OnTime frameSize capacity count s h)
    {arrival : Arrival T E} (hin : InTime s arrival) (hallowed : DecoderAllowed capacity arrival)
    (hleaves : LeavesAtMost count arrival) :
    Advances turns s arrival ∧ ∃ t, s.push turns arrival = some t ∧
      OnTime frameSize capacity count t (notePush s arrival t h) := by
  by_cases hlate : IsLate s arrival
  · obtain ⟨hpush, hnote⟩ := push_late turns hontime hlate
    refine ⟨⟨s, hpush, fun _ => rfl, fun hnot => absurd hlate hnot⟩, s, hpush, ?_⟩
    rw [hnote]
    exact hontime
  · have hlt : arrival.packet.timestamp.lt (lastTs s arrival) = false :=
      Bool.eq_false_iff.mpr hlate
    obtain ⟨gap, hgap, hdistance, hts⟩ := ahead_of_not_lt hlt hin.comparable
    have hturns' : gap ≤ turns := by omega
    have hmissing : missing s arrival = gap := by
      unfold missing
      rw [hdistance, Int.toNat_natCast]
    have hconceals := hin.conceals hlate
    have hwhole := hin.whole hlate
    have hroom := hin.room hlate
    obtain ⟨hring, hframe⟩ := based_fields s arrival
    obtain ⟨cells, scribbled, hholds, hle, hcells⟩ := hontime.holds
    rw [hmissing] at hconceals hroom
    obtain ⟨t, fill, scribbled', haccept, hholds', hle', hfill, hlast, hframe', hcapacity⟩ :=
      accept_spec (s := based s arrival) (by rw [hring]; exact hholds) hle hturns'
        (by rw [hring, hontime.sameCapacity]; exact hallowed) hleaves
        (by rw [hframe]; exact hconceals) (by rw [hring, hframe]; exact hroom)
    have hpush : s.push turns arrival = some t := by
      rw [push_eq, hlt, if_neg Bool.false_ne_true, hdistance]
      exact haccept
    rw [hframe] at hfill hlast hframe'
    have hlength : cells.length = h.frames * frameSize := by
      rw [← hholds.written, hontime.position]
    have hhead : t.ring.writeHead =
        s.ring.writeHead + gap * s.frameSizeInSamples + (decodedSamples arrival).length := by
      rw [hholds'.written, List.length_append, List.length_append, hfill, hholds.written]
    refine ⟨⟨t, hpush, fun h => absurd h hlate, fun _ => hmissing ▸ hhead⟩, t, hpush, ?_⟩
    rw [hontime.sameFrames] at hfill hlast hframe' hhead hwhole
    have hbase := lastTs_eq hontime arrival
    have hframes : (decodedSamples arrival).length / frameSize * frameSize =
        (decodedSamples arrival).length := Nat.div_mul_cancel hwhole
    have hnote : notePush s arrival t h =
        { first := some (h.first.getD arrival.packet.timestamp)
          frames := h.frames + gap + (decodedSamples arrival).length / frameSize
          packets := h.packets ++
            [⟨arrival.packet.timestamp, h.frames + gap, decodedSamples arrival⟩] } := by
      unfold notePush
      dsimp only
      rw [hlt, if_neg Bool.false_ne_true, hmissing, hontime.sameFrames]
    have htimestamp : arrival.packet.timestamp =
        h.first.getD arrival.packet.timestamp + BitVec.ofNat 32 (h.frames + gap) := by
      rw [BitVec.ofNat_add, ← BitVec.add_assoc, ← hbase]
      exact hts
    have hstart : (h.frames + gap) * frameSize = cells.length + fill.length := by
      rw [Nat.add_mul, hlength, hfill]
    rw [hnote]
    refine ⟨hframe', ?_, ?_, fun hnone => (by cases hnone), ?_, ?_, ?_⟩
    · rw [hcapacity, hring, hontime.sameCapacity]
    · rw [hlast]
      show some (arrival.packet.timestamp + _) = some (_ + _)
      rw [BitVec.ofNat_add, ← BitVec.add_assoc, ← htimestamp]
    · show t.ring.writeHead = _ * frameSize
      rw [hhead, Nat.add_mul, Nat.add_mul, hframes, hontime.position]
    · intro first hfirst packet hpacket
      obtain rfl := Option.some.inj hfirst
      obtain hold | hnew := List.mem_append.mp hpacket
      · cases hbefore : h.first with
        | none =>
          rw [(hontime.fresh hbefore).2] at hold
          cases hold
        | some first => exact hontime.timestamps first hbefore packet hold
      · obtain rfl := List.mem_singleton.mp hnew
        exact htimestamp
    · refine ⟨_, scribbled', hholds', hle', fun packet hpacket i hi => ?_⟩
      obtain hold | hnew := List.mem_append.mp hpacket
      · have hcell := hcells packet hold i hi
        have hbefore : packet.start * frameSize + i < cells.length := by
          by_contra hout
          rw [List.getElem?_eq_none (by omega), List.getElem?_eq_getElem hi] at hcell
          cases hcell
        rw [List.append_assoc, List.getElem?_append_left hbefore]
        exact hcell
      · obtain rfl := List.mem_singleton.mp hnew
        dsimp only
        rw [List.getElem?_append_right (by rw [List.length_append]; omega), List.length_append]
        congr 1
        omega

/-- **The timeline of every run.** -/
theorem push_keepsTimeline [Inhabited T] (mapped : Bool) (ringSize frameSize turns count : Nat)
    (hframe : frameSize ≠ 0) (hturns : 2 ^ 31 ≤ turns) (arrivals : List (Arrival T E))
    (hallowed : ∀ arrival ∈ arrivals,
      DecoderAllowed (new mapped ringSize frameSize hframe : RtpPlayer T).ring.capacity arrival)
    (hleaves : ∀ arrival ∈ arrivals, LeavesAtMost count arrival)
    (hin : AllSteps (push turns) InTime (new mapped ringSize frameSize hframe) arrivals) :
    AllSteps (push turns) (Advances turns) (new mapped ringSize frameSize hframe) arrivals ∧
      ∃ u h, run (withHistory notePush (push turns))
        (new mapped ringSize frameSize hframe, ⟨none, 0, []⟩) arrivals = some (u, h) ∧
        u.lastDecodedTs = (h.first.map fun first => first + BitVec.ofNat 32 h.frames) ∧
        u.ring.writeHead = h.frames * frameSize ∧
        ∀ packet ∈ h.packets,
          (∀ first, h.first = some first →
            packet.timestamp = first + BitVec.ofNat 32 packet.start) ∧
          StandsAt u.ring count (packet.start * frameSize) packet.samples := by
  have hnew : OnTime frameSize (new mapped ringSize frameSize hframe : RtpPlayer T).ring.capacity
      count (new mapped ringSize frameSize hframe : RtpPlayer T) ⟨none, 0, []⟩ := by
    refine ⟨rfl, rfl, rfl, fun _ => ⟨rfl, rfl⟩, ?_, fun first hfirst => (by cases hfirst),
      [], 0, holds_new mapped ringSize, Nat.zero_le _, fun packet hpacket => (by cases hpacket)⟩
    rw [Nat.zero_mul]
    rfl
  have hdecoders : AllSteps (push turns)
      (fun _ arrival => DecoderAllowed
        (new mapped ringSize frameSize hframe : RtpPlayer T).ring.capacity arrival ∧
          LeavesAtMost count arrival)
      (new mapped ringSize frameSize hframe) arrivals :=
    allSteps_of_mem
      (fun arrival harrival _ => ⟨hallowed arrival harrival, hleaves arrival harrival⟩) _
  have hsteps := hin.and hdecoders
  obtain ⟨hadvances, ⟨u, h⟩, hrun, hontime⟩ := run_progress
    (fun x => OnTime frameSize (new mapped ringSize frameSize hframe : RtpPlayer T).ring.capacity
      count x.1 x.2) _ (fun x arrival => Advances turns x.1 arrival)
    (by
      intro x arrival hontime hC
      obtain ⟨hadvances, t, ht, ht'⟩ := push_onTime hturns hontime hC.1 hC.2.1 hC.2.2
      exact ⟨hadvances, (t, notePush x.1 arrival t x.2),
        Option.map_eq_some_iff.mpr ⟨t, ht, rfl⟩, ht'⟩)
    hnew ((allSteps_withHistory notePush).mpr hsteps)
  refine ⟨(allSteps_withHistory notePush).mp hadvances, u, h, hrun, hontime.last,
    hontime.position, fun packet hpacket => ⟨fun first hfirst => ?_, hontime.standsAt hpacket⟩⟩
  exact hontime.timestamps first hfirst packet hpacket

/-- A packet of one byte and a decoder whose answers stay the same. -/
def answering (timestamp : ModSeq 32) (sequenceNumber : ModSeq 16) (concealed decoded : List Nat) :
    Arrival Nat String where
  packet := ⟨timestamp, sequenceNumber, [0]⟩
  decodeStart := 0
  concealLostPacket := fun _ => ⟨concealed, .ok concealed.length⟩
  decode := ⟨decoded, .ok (decoded.length, 1)⟩

theorem answering_allowed {timestamp : ModSeq 32} {sequenceNumber : ModSeq 16}
    {concealed decoded : List Nat} (capacity : Nat) (hconcealed : concealed.length ≤ capacity)
    (hdecoded : decoded.length ≤ capacity) :
    DecoderAllowed capacity (answering timestamp sequenceNumber concealed decoded) ∧
      LeavesAtMost 0 (answering timestamp sequenceNumber concealed decoded) := by
  refine ⟨⟨fun _ => ⟨hconcealed, ?_⟩, ⟨hdecoded, ?_⟩⟩, ⟨fun _ => ?_, ?_⟩⟩
  · rintro _ ⟨⟩
    exact Nat.le_refl _
  · rintro _ ⟨⟩
    exact Nat.le_refl _
  · show concealed.length ≤ (concealed.take concealed.length).length
    rw [List.take_length]
  · show decoded.length ≤ (decoded.take decoded.length).length
    rw [List.take_length]

/-- The first packet of a stereo stream leaves no gap. -/
theorem push_first (turns : Nat) :
    ∃ t, (new false 16 2 (by decide) : RtpPlayer Nat).push turns
        (answering 4294967294#32 7 [] [1, 2, 3, 4]) = some t ∧
      t.lastDecodedTs = some 0#32 ∧ t.frameSizeInSamples = 2 ∧ t.ring.writeHead = 4 := by
  refine ⟨_, rfl, ?_, ?_, ?_⟩
  · rfl
  · rfl
  · rfl

/-- Two packets on both sides of the wrap of the timestamps, with a concealed frame between
them. -/
theorem push_keepsTimeline_wrap : ∃ u h, run (withHistory notePush (push (2 ^ 31)))
    ((new false 16 2 (by decide) : RtpPlayer Nat), ⟨none, 0, []⟩)
      [answering 4294967294#32 7 [] [1, 2, 3, 4], answering 1#32 9 [9, 9] [5, 6]] = some (u, h) ∧
    u.lastDecodedTs = (h.first.map fun first => first + BitVec.ofNat 32 h.frames) ∧
    u.ring.writeHead = h.frames * 2 := by
  have hfirst : InTime (new false 16 2 (by decide) : RtpPlayer Nat)
      (answering 4294967294#32 7 [] [1, 2, 3, 4]) := by
    refine ⟨by decide, fun _ => ?_, fun _ => ?_, fun _ => ?_⟩
    · exact ConcealsWhole.filled _
    · show 2 ∣ 4
      decide
    · show 0 + 0 * 2 + 4 < 2 ^ 64
      decide
  have hsecond : ∀ t, push (2 ^ 31) (new false 16 2 (by decide) : RtpPlayer Nat)
      (answering 4294967294#32 7 [] [1, 2, 3, 4]) = some t →
        InTime t (answering 1#32 9 [9, 9] [5, 6]) := by
    intro t ht
    obtain ⟨t', ht', hlast, hframe, hhead⟩ := push_first (2 ^ 31)
    obtain rfl := Option.some.inj (ht.symm.trans ht')
    have hlastTs : lastTs t (answering 1#32 9 [9, 9] [5, 6]) = 0#32 := by
      unfold lastTs
      rw [hlast]
      rfl
    have hmissing : missing t (answering 1#32 9 [9, 9] [5, 6]) = 1 := by
      unfold missing
      rw [hlastTs]
      rfl
    refine ⟨?_, fun _ => ?_, fun _ => ?_, fun _ => ?_⟩
    · rw [hlastTs]
      decide
    · rw [hmissing, hframe]
      have hone : ((answering 1#32 9 [9, 9] [5, 6]).concealLostPacket 0).result = .ok (1 * 2) := rfl
      exact ConcealsWhole.frames hone (by decide) (by decide) (ConcealsWhole.filled _)
    · rw [hframe]
      show 2 ∣ 2
      decide
    · rw [hmissing, hframe, hhead]
      show 4 + 1 * 2 + 2 < 2 ^ 64
      decide
  obtain ⟨-, u, h, hrun, hlast, hposition, -⟩ := push_keepsTimeline false 16 2 (2 ^ 31) 0
    (by decide) (Nat.le_refl _)
    [answering 4294967294#32 7 [] [1, 2, 3, 4], answering 1#32 9 [9, 9] [5, 6]]
    (by
      intro arrival harrival
      obtain rfl | rfl := List.mem_pair.mp harrival
      · exact (answering_allowed _ (by decide) (by decide +kernel)).1
      · exact (answering_allowed _ (by decide +kernel) (by decide +kernel)).1)
    (by
      intro arrival harrival
      obtain rfl | rfl := List.mem_pair.mp harrival
      · exact (answering_allowed 16 (by decide) (by decide)).2
      · exact (answering_allowed 16 (by decide) (by decide)).2)
    ⟨hfirst, fun t ht => ⟨hsecond t ht, fun _ _ => trivial⟩⟩
  exact ⟨u, h, hrun, hlast, hposition⟩

/-- **A concealment of less than a frame** is repeated for ever. -/
theorem writeSilenceGap_stuck [Inhabited T] {frameSize samples gap : Nat} (hpositive : 0 < samples)
    (hless : samples < frameSize) (hgap : 0 < gap) {calls : Nat → DecoderCall T E Nat}
    (hcalls : ∀ i, (calls i).result = .ok samples) (turns : Nat) (r : RingBuffer T) :
    writeSilenceGap frameSize turns gap r calls = none := by
  obtain ⟨gap, rfl⟩ : ∃ g, gap = g + 1 := ⟨gap - 1, by omega⟩
  induction turns generalizing r calls with
  | zero => rfl
  | succ turns ih =>
    unfold writeSilenceGap
    dsimp only
    rw [hcalls 0]
    dsimp only
    rw [if_pos hpositive, Nat.div_eq_of_lt hless, Nat.zero_min, Nat.sub_zero]
    exact ih (fun i => hcalls (i + 1)) _

/-- A stereo stream: a concealment of one sample never returns; three decoded samples move the
ring by three, and the timestamp by one frame. -/
theorem push_losesTimeline :
    (∀ turns, run (push turns) (new false 16 2 (by decide) : RtpPlayer Nat)
      [answering 4294967294#32 7 [] [1, 2, 3, 4], answering 1#32 9 [9] [5, 6]] = none) ∧
    ∃ u h, run (withHistory notePush (push 1))
      ((new false 16 2 (by decide) : RtpPlayer Nat), ⟨none, 0, []⟩)
        [answering 0#32 7 [] [1, 2, 3]] = some (u, h) ∧
      h.frames = 1 ∧ u.ring.writeHead ≠ h.frames * 2 := by
  refine ⟨fun turns => ?_, _, _, rfl, rfl, ?_⟩
  · obtain ⟨t, ht, hlast, hframe, -⟩ := push_first turns
    have hstuck : t.push turns (answering 1#32 9 [9] [5, 6]) = none := by
      have hlastTs : lastTs t (answering 1#32 9 [9] [5, 6]) = 0#32 := by
        unfold lastTs
        rw [hlast]
        rfl
      have hgap : ∀ r, writeSilenceGap (based t (answering 1#32 9 [9] [5, 6])).frameSizeInSamples
          turns 1 r (answering 1#32 9 [9] [5, 6]).concealLostPacket = none := by
        intro r
        rw [(based_fields t _).2, hframe]
        exact @writeSilenceGap_stuck Nat String _ 2 1 1 (by decide) (by decide)
          (by decide) _ (fun _ => rfl) turns r
      rw [push_eq, hlastTs, if_neg (by decide)]
      unfold accept
      dsimp only
      rw [if_pos (by decide)]
      exact (congrArg (Option.map _) (hgap _)).trans rfl
    unfold run
    rw [ht]
    show (t.push turns _).bind _ = none
    rw [hstuck]
    rfl
  · decide

end Catplay.Analysis.Rtp
