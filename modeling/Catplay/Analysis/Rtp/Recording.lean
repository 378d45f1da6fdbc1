import Catplay.Analysis.Ring.Samples
import Catplay.Analysis.Rtp.Pacing
import Catplay.Library.Run
import Catplay.Model.Rtp.RtpRecorder

/-!
# The recording pipeline

The packets that the callback accepted, and behind them those that wait, are all packets that
were encoded, in this order (`log`). Encoding adds to their end, sending moves the border
between the two; an overflow, an error and a partial send leave both in step with the ring, the
pacer and the pool of buffers (`Consistent`).
-/

set_option autoImplicit false

namespace Catplay.Analysis.Rtp

open Catplay.Library.Run Catplay.Model.Ring Catplay.Model.Rtp Catplay.Model.Rtp.RtpRecorder
open Catplay.Analysis.Ring

variable {T Enc Ciph E R : Type}

/-! ## Packets -/

/-- What `RtpSessionTx` promises of its numbers: packets of whole frames that fit in the ring. -/
structure Whole (samples frameSize capacity : Nat) : Prop where
  positive : 0 < samples
  whole : frameSize ∣ samples
  fits : samples ≤ capacity

variable {samples limit : Nat} {packet : EncodedPacket T} {x x' : Session T Enc Ciph}
  {script : Nat → Turn R} {cells : List T}

theorem Whole.tsJump {frameSize capacity : Nat} (h : Whole samples frameSize capacity) :
    samples / frameSize * frameSize = samples := Nat.div_mul_cancel h.whole

theorem Whole.tsJump_pos {frameSize capacity : Nat}
    (h : Whole samples frameSize capacity) : 0 < samples / frameSize := by
  have hjump := h.tsJump
  have hpositive := h.positive
  rcases Nat.eq_zero_or_pos (samples / frameSize) with hzero | hpos
  · rw [hzero, Nat.zero_mul] at hjump
    omega
  · exact hpos

variable (coding : Coding T Enc Ciph E R)

/-- A datagram that the encoder and the cipher made of samples and a header. -/
def Made (frames : List T) (header : RtpHeader) (buffer : List UInt8) : Prop :=
  ∃ encoder cipher payload, (coding.encode encoder frames).2 = .ok (payload, frames.length) ∧
    (coding.encrypt cipher payload header).2 = .ok buffer

/-- The packet of a number. -/
structure Numbered (streamType samples tsJump index : Nat) (packet : EncodedPacket T) :
    Prop where
  header : packet.header = prepareHeader streamType (BitVec.ofNat 32 packet.packetMeta.firstTs)
    (BitVec.ofNat 16 index)
  ends : packet.packetMeta.endTs = packet.packetMeta.firstTs + tsJump
  frames : packet.frames.length = samples
  made : Made coding packet.frames packet.header packet.buffer

/-- **What a packet carries**: the samples of the ring from the position of its timestamp on, all of
them written and none of them lost. -/
structure Carries (ring : RingBuffer T) (samples frameSize : Nat) (packet : EncodedPacket T) :
    Prop where
  written : packet.packetMeta.firstTs * frameSize + samples ≤ ring.writeHead
  kept : ring.writeHead ≤ packet.packetMeta.firstTs * frameSize + ring.capacity
  frames : ∀ i, i < samples → packet.frames[i]? =
    ring.ring.asSlice[(packet.packetMeta.firstTs * frameSize + i) % ring.capacity]?

theorem Carries.same {ring ring' : RingBuffer T} {frameSize : Nat}
    (h : Carries ring' samples frameSize packet)
    (hsame : SameSamples ring ring') : Carries ring samples frameSize packet := by
  obtain ⟨hwritten, hkept, hframes⟩ := h
  rw [hsame.writeHead] at hwritten hkept
  rw [hsame.capacity] at hkept
  refine ⟨hwritten, hkept, fun i hi => ?_⟩
  rw [hframes i hi, hsame.storage, hsame.capacity]

/-- All packets that were encoded: the accepted ones, then those that wait. -/
def log (x : Session T Enc Ciph) : List (EncodedPacket T) :=
  x.transmitted ++ x.recorder.pendingTransmit

/-- **The recorder in step** with its ring, its pacer and its buffers, `ahead` samples of which
are encoded and not yet committed. -/
structure Consistent (samples frameSize capacity ahead : Nat) (x : Session T Enc Ciph) :
    Prop where
  sameSamples : x.recorder.samplesPerPacket = samples
  sameFrames : x.recorder.frameSizeInSamples = frameSize
  sized : Sized x.recorder.ring capacity
  pool : x.recorder.emptyBuffers.length + x.recorder.pendingTransmit.length = udpQueueSize
  numbered : ∀ index packet, (log x)[index]? = some packet →
    Numbered coding x.recorder.streamType samples (samples / frameSize) index packet
  seq : x.recorder.seq = BitVec.ofNat 16 (log x).length
  inOrder : InOrder 0 ((log x).map EncodedPacket.packetMeta)
  ends : ∀ packet ∈ log x, packet.packetMeta.endTs ≤ x.recorder.ts
  pending : InOrder (x.recorder.pacer.lastEndTs.getD 0)
    (x.recorder.pendingTransmit.map EncodedPacket.packetMeta)
  paced : x.recorder.pacer.lastEndTs.getD 0 ≤ x.recorder.ts
  anchored : Anchored x.recorder.pacer
  position : x.recorder.ring.readHead + ahead = x.recorder.ts * frameSize

/-! ## Encoding -/

/-- Preparing a packet changes the encoder and the cipher only. -/
theorem preparePacket_cases (r : RtpRecorder T Enc Ciph) (frames : List T) :
    ∃ encoder cipher, (r.preparePacket coding frames).1 = { r with encoder, cipher } ∧
      ∀ buffer, (r.preparePacket coding frames).2 = .ok buffer →
        Made coding frames (prepareHeader r.streamType (BitVec.ofNat 32 r.ts) r.seq) buffer := by
  rcases hencode : coding.encode r.encoder frames with ⟨encoder, error | ⟨written, consumed⟩⟩
  · have hprepare : r.preparePacket coding frames =
        ({ r with encoder }, .error (.codec error)) := by
      simp [preparePacket, encodeInto, hencode]
    rw [hprepare]
    exact ⟨encoder, r.cipher, rfl, fun buffer h => (by cases h)⟩
  · by_cases hconsumed : consumed = frames.length
    · rcases hencrypt : coding.encrypt r.cipher written
        (prepareHeader r.streamType (BitVec.ofNat 32 r.ts) r.seq) with ⟨cipher, error | buffer⟩
      · have hprepare : r.preparePacket coding frames =
            ({ r with encoder, cipher }, .error (.rtsp error)) := by
          simp [preparePacket, encodeInto, hencode, hconsumed, hencrypt]
        rw [hprepare]
        exact ⟨encoder, cipher, rfl, fun buffer h => (by cases h)⟩
      · have hprepare : r.preparePacket coding frames =
            ({ r with encoder, cipher }, .ok buffer) := by
          simp [preparePacket, encodeInto, hencode, hconsumed, hencrypt]
        rw [hprepare]
        refine ⟨encoder, cipher, rfl, fun buffer' h => ?_⟩
        obtain rfl := Except.ok.inj h
        refine ⟨r.encoder, r.cipher, written, ?_, ?_⟩
        · rw [hencode, hconsumed]
        · rw [hencrypt]
    · have hprepare : r.preparePacket coding frames =
          ({ r with encoder }, .error .overflow) := by
        simp [preparePacket, encodeInto, hencode, hconsumed]
      rw [hprepare]
      exact ⟨encoder, r.cipher, rfl, fun buffer h => (by cases h)⟩

variable {coding} {samples frameSize capacity ahead : Nat}

/-- The state of the encoder and of the cipher is not spoken of. -/
theorem Consistent.recode
    (h : Consistent coding samples frameSize capacity ahead x) (encoder : Enc) (cipher : Ciph) :
    Consistent coding samples frameSize capacity ahead
      { x with recorder := { x.recorder with encoder, cipher } } := by
  obtain ⟨hsamples, hframe, hsized, hpool, hnumbered, hseq, hinOrder, hends, hpending, hpaced,
    hanchored, hposition⟩ := h
  exact ⟨hsamples, hframe, hsized, hpool, hnumbered, hseq, hinOrder, hends, hpending, hpaced,
    hanchored, hposition⟩

/-- A packet goes to the end of the log. -/
theorem Consistent.add (hwhole : Whole samples frameSize capacity)
    (h : Consistent coding samples frameSize capacity ahead x)
    (hbuffers : 0 < x.recorder.emptyBuffers.length) (encoder : Enc) (cipher : Ciph)
    (packet : EncodedPacket T)
    (hmeta : packet.packetMeta = ⟨x.recorder.ts, x.recorder.ts + samples / frameSize⟩)
    (hheader : packet.header =
      prepareHeader x.recorder.streamType (BitVec.ofNat 32 x.recorder.ts) x.recorder.seq)
    (hframes : packet.frames.length = samples)
    (hmade : Made coding packet.frames packet.header packet.buffer) :
    Consistent coding samples frameSize capacity (ahead + samples)
      { x with
        recorder :=
          { x.recorder with
            encoder
            cipher
            ts := x.recorder.ts + samples / frameSize
            seq := x.recorder.seq + 1
            emptyBuffers := x.recorder.emptyBuffers.tail
            pendingTransmit := x.recorder.pendingTransmit ++ [packet] } } := by
  have hjump := hwhole.tsJump_pos
  have hlog : log ({ x with
        recorder :=
          { x.recorder with
            encoder
            cipher
            ts := x.recorder.ts + samples / frameSize
            seq := x.recorder.seq + 1
            emptyBuffers := x.recorder.emptyBuffers.tail
            pendingTransmit := x.recorder.pendingTransmit ++ [packet] } } : Session T Enc Ciph) =
      log x ++ [packet] := by
    unfold log
    exact (List.append_assoc _ _ _).symm
  refine ⟨h.sameSamples, h.sameFrames, h.sized, ?_, ?_, ?_, ?_, ?_, ?_, ?_, h.anchored, ?_⟩
  · show x.recorder.emptyBuffers.tail.length + (x.recorder.pendingTransmit ++ [packet]).length = _
    rw [List.length_tail, List.length_append, List.length_singleton]
    have hpool := h.pool
    omega
  · intro index packet' hpacket
    rw [hlog] at hpacket
    by_cases hold : index < (log x).length
    · rw [List.getElem?_append_left hold] at hpacket
      exact h.numbered index packet' hpacket
    · have hlast : index = (log x).length := by
        have hbound := (List.getElem?_eq_some_iff.mp hpacket).1
        rw [List.length_append, List.length_singleton] at hbound
        omega
      rw [hlast, List.getElem?_concat_length] at hpacket
      obtain rfl := Option.some.inj hpacket
      refine ⟨?_, ?_, hframes, hmade⟩
      · rw [hheader, hmeta, hlast, h.seq]
      · rw [hmeta]
  · show x.recorder.seq + 1 = _
    rw [hlog, List.length_append, List.length_singleton, BitVec.ofNat_add, h.seq]
    rfl
  · rw [hlog, List.map_append]
    refine h.inOrder.concat (Nat.zero_le _) (fun earlier hearlier => ?_) (by rw [hmeta]; dsimp only; omega)
    obtain ⟨packet', hpacket', rfl⟩ := List.mem_map.mp hearlier
    rw [hmeta]
    exact h.ends packet' hpacket'
  · intro packet' hpacket
    rw [hlog] at hpacket
    show packet'.packetMeta.endTs ≤ x.recorder.ts + samples / frameSize
    obtain hold | hnew := List.mem_append.mp hpacket
    · have hend := h.ends packet' hold
      omega
    · obtain rfl := List.mem_singleton.mp hnew
      have hend := congrArg RtpPacketMeta.endTs hmeta
      exact Nat.le_of_eq hend
  · show InOrder _ ((x.recorder.pendingTransmit ++ [packet]).map EncodedPacket.packetMeta)
    rw [List.map_append]
    refine h.pending.concat (by rw [hmeta]; exact h.paced) (fun earlier hearlier => ?_)
      (by rw [hmeta]; dsimp only; omega)
    obtain ⟨packet', hpacket', rfl⟩ := List.mem_map.mp hearlier
    rw [hmeta]
    exact h.ends packet' (List.mem_append_right _ hpacket')
  · exact Nat.le_trans h.paced (Nat.le_add_right _ _)
  · show x.recorder.ring.readHead + (ahead + samples) =
      (x.recorder.ts + samples / frameSize) * frameSize
    rw [Nat.add_mul, hwhole.tsJump, ← Nat.add_assoc, h.position]

/-- What encoding does to a session: packets at the end of the log, which carry the samples of the
ring, and nothing else but the read head of the ring. -/
structure Encoded (samples frameSize : Nat) (x x' : Session T Enc Ciph) : Prop where
  same : SameSamples x.recorder.ring x'.recorder.ring
  transmitted : x'.transmitted = x.transmitted
  added : ∃ added, x'.recorder.pendingTransmit = x.recorder.pendingTransmit ++ added ∧
    ∀ packet ∈ added, Carries x.recorder.ring samples frameSize packet

theorem Encoded.refl (hring : SameSamples x.recorder.ring x'.recorder.ring)
    (htransmitted : x'.transmitted = x.transmitted)
    (hpending : x'.recorder.pendingTransmit = x.recorder.pendingTransmit) :
    Encoded samples frameSize x x' := by
  refine ⟨hring, htransmitted, [], ?_, fun packet hpacket => (by cases hpacket)⟩
  rw [hpending, List.append_nil]

theorem Encoded.trans {x'' : Session T Enc Ciph} (h : Encoded samples frameSize x x')
    (h' : Encoded samples frameSize x' x'') : Encoded samples frameSize x x'' := by
  obtain ⟨hsame, htransmitted, added, hadded, hcarries⟩ := h
  obtain ⟨hsame', htransmitted', added', hadded', hcarries'⟩ := h'
  refine ⟨hsame.trans hsame', htransmitted'.trans htransmitted, added ++ added', ?_, ?_⟩
  · rw [hadded', hadded, List.append_assoc]
  · intro packet hpacket
    obtain hold | hnew := List.mem_append.mp hpacket
    · exact hcarries packet hold
    · exact (hcarries' packet hnew).same hsame

/-- **The loop over the packets** of a readable slice, at the position that is `ahead` of the read
head. -/
theorem encodePackets_spec (hwhole : Whole samples frameSize capacity) (packets : Nat)
    (h : Consistent coding samples frameSize capacity ahead x)
    (hbuffers : packets ≤ x.recorder.emptyBuffers.length) (readable : List T)
    (hwritten : x.recorder.ring.readHead + ahead + packets * samples ≤ x.recorder.ring.writeHead)
    (hkept : x.recorder.ring.writeHead ≤ x.recorder.ring.readHead + ahead + capacity)
    (hreadable : ∀ i, i < packets * samples → readable[i]? =
      x.recorder.ring.ring.asSlice[(x.recorder.ring.readHead + ahead + i) % capacity]?) :
    ∃ r committed result, x.recorder.encodePackets coding packets readable ahead =
        (r, committed, result) ∧
      Consistent coding samples frameSize capacity committed { x with recorder := r } ∧
      Encoded samples frameSize x { x with recorder := r } ∧ r.ring = x.recorder.ring ∧
      committed ≤ ahead + packets * samples ∧
      r.pendingTransmit.length + ahead ≤ x.recorder.pendingTransmit.length + committed ∧
      (result = .ok () → r.emptyBuffers.length + packets = x.recorder.emptyBuffers.length ∧
        committed = ahead + packets * samples) := by
  induction packets generalizing ahead x readable with
  | zero =>
    refine ⟨x.recorder, ahead, .ok (), rfl, h, Encoded.refl (SameSamples.refl _) rfl rfl, rfl,
      by omega, Nat.le_refl _, fun _ => ⟨rfl, by omega⟩⟩
  | succ packets ih =>
    have hpositive := hwhole.positive
    have hsplit : (packets + 1) * samples = samples + packets * samples := by
      rw [Nat.add_mul, Nat.one_mul, Nat.add_comm]
    rw [hsplit] at hwritten hreadable ⊢
    obtain ⟨encoder, cipher, hprepared, hmade⟩ :=
      preparePacket_cases coding x.recorder (readable.take samples)
    unfold encodePackets
    dsimp only
    rw [h.sameSamples, h.sameFrames]
    generalize hprepare : x.recorder.preparePacket coding (readable.take samples) = outcome
      at hprepared hmade
    obtain ⟨prepared, result⟩ := outcome
    dsimp only at hprepared
    cases result with
    | error error =>
      refine ⟨prepared, ahead, .error error, rfl, ?_, ?_, ?_, by omega, ?_,
        fun hok => (by cases hok)⟩
      · rw [hprepared]
        exact h.recode encoder cipher
      · rw [hprepared]
        exact Encoded.refl (SameSamples.refl _) rfl rfl
      · rw [hprepared]
      · exact Nat.le_of_eq (by rw [hprepared])
    | ok buffer =>
      have hslice := h.sized.mirrored.length
      have hcapacity : 0 < capacity := by
        have hfits := hwhole.fits
        omega
      have hlong : samples ≤ readable.length := by
        have hlast := hreadable (samples - 1) (by omega)
        by_contra hshort
        rw [List.getElem?_eq_none (by omega)] at hlast
        have hbound := Nat.mod_lt (x.recorder.ring.readHead + ahead + (samples - 1)) hcapacity
        rw [List.getElem?_eq_getElem (by omega)] at hlast
        cases hlast
      have hframes : (readable.take samples).length = samples := List.length_take_of_le hlong
      have hhead := h.position
      have hadd := h.add hwhole (show 0 < x.recorder.emptyBuffers.length by omega) encoder cipher
        { buffer
          packetMeta := ⟨x.recorder.ts, x.recorder.ts + samples / frameSize⟩
          header := prepareHeader x.recorder.streamType (BitVec.ofNat 32 x.recorder.ts)
            x.recorder.seq
          frames := readable.take samples } rfl rfl hframes (hmade buffer rfl)
      have htail : x.recorder.emptyBuffers.tail.length + 1 = x.recorder.emptyBuffers.length := by
        rw [List.length_tail]
        omega
      obtain ⟨r, committed, result, hrun, hconsistent, hencoded, hring, hlow, hhigh, hok⟩ :=
        ih hadd (by dsimp only; omega) (readable.drop samples) (by dsimp only; omega)
          (by dsimp only; omega) (by
            intro i hi
            dsimp only
            rw [List.getElem?_drop, hreadable (samples + i) (by omega)]
            congr 2
            omega)
      dsimp only at hlow hhigh
      rw [List.length_append, List.length_singleton] at hhigh
      refine ⟨r, committed, result, ?_, hconsistent, ?_, hring, by omega, by omega,
        fun hresult => ?_⟩
      · rw [hprepared]
        exact hrun
      · refine Encoded.trans ?_ hencoded
        refine ⟨SameSamples.refl _, rfl, _, rfl, fun packet hpacket => ?_⟩
        obtain rfl := List.mem_singleton.mp hpacket
        refine ⟨?_, ?_, fun i hi => ?_⟩
        · dsimp only
          omega
        · dsimp only
          rw [h.sized.same]
          omega
        · dsimp only
          rw [List.getElem?_take, if_pos hi, hreadable i (by omega), h.sized.same,
            h.position]
      · obtain ⟨hcount, hcommitted⟩ := hok hresult
        dsimp only at hcount
        exact ⟨by omega, by omega⟩

/-- Committing what was encoded. -/
theorem Consistent.commit (h : Consistent coding samples frameSize capacity ahead x)
    (hbehind : x.recorder.ring.readHead + ahead < 2 ^ 64) :
    Consistent coding samples frameSize capacity 0
      { x with recorder := { x.recorder with ring := x.recorder.ring.readCommit ahead } } := by
  refine ⟨h.sameSamples, h.sameFrames, h.sized.readCommit ahead, h.pool, h.numbered, h.seq,
    h.inOrder, h.ends, h.pending, h.paced, h.anchored, ?_⟩
  show (x.recorder.ring.readCommit ahead).readHead + 0 = _
  rw [readCommit_readHead h.sized.read, Nat.add_zero, Nat.mod_eq_of_lt hbehind]
  exact h.position

/-- **Skipping what was lost**, in whole packets: the timestamp goes on by as many, and nothing is
lost any more. -/
theorem Consistent.rewind (hwhole : Whole samples frameSize capacity)
    (h : Consistent coding samples frameSize capacity 0 x) {lost : Nat} (hpositive : 0 < lost)
    (hlost : x.recorder.ring.writeHead = x.recorder.ring.readHead + capacity + lost) :
    Consistent coding samples frameSize capacity 0
        { x with recorder := x.recorder.rewindRounding lost } ∧
      (x.recorder.rewindRounding lost).ring.writeHead ≤
        (x.recorder.rewindRounding lost).ring.readHead + capacity ∧
      (x.recorder.rewindRounding lost).ring.readHead ≤
        (x.recorder.rewindRounding lost).ring.writeHead := by
  have hsamples := hwhole.positive
  have hfits := hwhole.fits
  have hbound := h.sized.written
  -- the next multiple of the packet size
  have hround : lost ≤ (lost + samples - 1) / samples * samples ∧
      (lost + samples - 1) / samples * samples < lost + samples := by
    have hdiv := Nat.div_add_mod (lost + samples - 1) samples
    have hmod := Nat.mod_lt (lost + samples - 1) hsamples
    rw [Nat.mul_comm] at hdiv
    omega
  have hread : (x.recorder.rewindRounding lost).ring.readHead =
      x.recorder.ring.readHead + (lost + samples - 1) / samples * samples := by
    unfold rewindRounding
    dsimp only
    rw [readCommit_readHead h.sized.read, h.sameSamples, Nat.mod_eq_of_lt (by omega)]
  have hsame : SameSamples x.recorder.ring (x.recorder.rewindRounding lost).ring := by
    unfold rewindRounding
    exact readCommit_same _ _
  have hts : (x.recorder.rewindRounding lost).ts =
      x.recorder.ts + (lost + samples - 1) / samples * (samples / frameSize) := by
    unfold rewindRounding
    dsimp only
    rw [h.sameSamples, h.sameFrames]
  refine ⟨⟨h.sameSamples, h.sameFrames, ?_, h.pool, h.numbered, h.seq, h.inOrder, ?_, h.pending, ?_,
    h.anchored, ?_⟩, ?_, ?_⟩
  · unfold rewindRounding
    exact h.sized.readCommit _
  · intro packet hpacket
    have hend := h.ends packet hpacket
    dsimp only
    omega
  · have hpaced := h.paced
    show x.recorder.pacer.lastEndTs.getD 0 ≤ (x.recorder.rewindRounding lost).ts
    omega
  · have hposition := h.position
    dsimp only
    rw [hread, hts, Nat.add_mul, Nat.mul_assoc, hwhole.tsJump, ← hposition]
    rfl
  · rw [hread, hsame.writeHead]
    omega
  · rw [hread, hsame.writeHead]
    omega

/-- The samples that wait in the ring. -/
def waiting (ring : RingBuffer T) : Nat := min (ring.writeHead - ring.readHead) ring.capacity

/-- What the overflow costs `encode_all`: a turn. -/
def overflowTurns (ring : RingBuffer T) : Nat := if ring.readableSlice.1 = 0 then 0 else 1

theorem lost_eq (ring : RingBuffer T) :
    ring.readableSlice.1 = ring.writeHead - ring.capacity - ring.readHead := by
  unfold RingBuffer.readableSlice
  dsimp only
  split <;> rfl

/-- **Encoding all that is readable**, as far as there are buffers, in no more turns than
buffers. -/
theorem encodeAll_spec (hwhole : Whole samples frameSize capacity) (turns : Nat)
    (h : Consistent coding samples frameSize capacity 0 x)
    (hturns : x.recorder.emptyBuffers.length + overflowTurns x.recorder.ring < turns) :
    ∃ r result, x.recorder.encodeAll coding turns = some (r, result) ∧
      Consistent coding samples frameSize capacity 0 { x with recorder := r } ∧
      Encoded samples frameSize x { x with recorder := r } ∧
      waiting r.ring + r.pendingTransmit.length ≤
        waiting x.recorder.ring + x.recorder.pendingTransmit.length := by
  induction turns generalizing x with
  | zero => omega
  | succ turns ih =>
    have hpositive := hwhole.positive
    unfold encodeAll
    by_cases hfull : x.recorder.emptyBuffers.isEmpty
    · rw [if_pos hfull]
      exact ⟨x.recorder, .ok (), rfl, h, Encoded.refl (SameSamples.refl _) rfl rfl, Nat.le_refl _⟩
    · rw [if_neg hfull]
      have hlost := lost_eq x.recorder.ring
      rw [h.sized.same] at hlost
      unfold overflowTurns at hturns
      dsimp only
      by_cases hoverflow : x.recorder.ring.readableSlice.1 > 0
      · -- what was lost is skipped, and then nothing is lost
        rw [if_pos hoverflow]
        rw [if_neg (by omega)] at hturns
        obtain ⟨hconsistent, hkept, hbehind⟩ := h.rewind hwhole hoverflow (by omega)
        have hnone : (x.recorder.rewindRounding
            x.recorder.ring.readableSlice.1).ring.readableSlice.1 = 0 := by
          have hcapacity := hconsistent.sized.same
          dsimp only at hcapacity
          rw [lost_eq, hcapacity]
          omega
        have hsame : SameSamples x.recorder.ring
            (x.recorder.rewindRounding x.recorder.ring.readableSlice.1).ring := by
          unfold rewindRounding
          exact readCommit_same _ _
        obtain ⟨r, result, hrun, hconsistent', hencoded, hwaiting⟩ := ih hconsistent (by
          unfold overflowTurns
          dsimp only
          rw [hnone, if_pos rfl]
          show x.recorder.emptyBuffers.length + 0 < turns
          omega)
        refine ⟨r, result, hrun, hconsistent', ?_, Nat.le_trans hwaiting ?_⟩
        · refine Encoded.trans ?_ hencoded
          exact Encoded.refl hsame rfl rfl
        · have hwriteHead := hsame.writeHead
          have hcapacity := hsame.capacity
          have hsized := h.sized.same
          refine Nat.add_le_add_right ?_ x.recorder.pendingTransmit.length
          unfold waiting
          dsimp only
          omega
      · rw [if_neg hoverflow]
        have hkept : x.recorder.ring.readableSlice.1 = 0 := by omega
        rw [if_pos hkept] at hturns
        obtain ⟨hwindow, hlength, hslice⟩ := readableSlice_spec h.sized hkept
        have hcount : (x.recorder.ring.readableSlice.2.length / samples) * samples ≤
            x.recorder.ring.readableSlice.2.length := Nat.div_mul_le_self _ _
        rw [h.sameSamples]
        generalize hpackets : min (x.recorder.ring.readableSlice.2.length / samples)
          x.recorder.emptyBuffers.length = packets
        have hfit : packets * samples ≤ x.recorder.ring.writeHead - x.recorder.ring.readHead := by
          have hle : packets * samples ≤
              (x.recorder.ring.readableSlice.2.length / samples) * samples :=
            Nat.mul_le_mul_right samples (by omega)
          omega
        by_cases hnone : packets = 0
        · -- nothing to encode
          rw [hnone]
          unfold encodePackets
          dsimp only
          rw [if_pos rfl]
          refine ⟨_, .ok (), rfl, h.commit h.sized.read, ?_, Nat.le_refl _⟩
          exact Encoded.refl (readCommit_same _ 0) rfl rfl
        have hone : samples ≤ packets * samples := Nat.le_mul_of_pos_left samples (by omega)
        have hbehind : x.recorder.ring.readHead + 0 + packets * samples ≤
            x.recorder.ring.writeHead := by omega
        obtain ⟨r, committed, result, hrun, hconsistent, hencoded, hring, hhigh, hmore, hok⟩ :=
          encodePackets_spec hwhole packets h (by omega) _ hbehind (by omega)
            (by
              intro i hi
              rw [hslice i (by omega), Nat.add_zero])
        have hbound := h.sized.written
        have hcommit := hconsistent.commit (by dsimp only; rw [hring]; omega)
        have hread : (r.ring.readCommit committed).readHead =
            x.recorder.ring.readHead + committed := by
          rw [hring, readCommit_readHead h.sized.read, Nat.mod_eq_of_lt (by omega)]
        have hsame := readCommit_same r.ring committed
        have hencoded' : Encoded samples frameSize x
            { x with recorder := { r with ring := r.ring.readCommit committed } } := by
          refine hencoded.trans ?_
          exact Encoded.refl hsame rfl rfl
        have hwriteHead := hsame.writeHead.trans (congrArg RingBuffer.writeHead hring)
        have hcapacity := hsame.capacity.trans (congrArg RingBuffer.capacity hring)
        have hsized := h.sized.same
        have hwaiting : waiting (r.ring.readCommit committed) + r.pendingTransmit.length ≤
            waiting x.recorder.ring + x.recorder.pendingTransmit.length := by
          unfold waiting
          omega
        rw [hrun]
        dsimp only
        cases result with
        | error error => exact ⟨_, .error error, rfl, hcommit, hencoded', hwaiting⟩
        | ok done =>
          obtain ⟨hbuffers, hcommitted⟩ := hok rfl
          dsimp only
          rw [if_neg hnone]
          have hkept' : ({ r with ring := r.ring.readCommit committed } :
              RtpRecorder T Enc Ciph).ring.readableSlice.1 = 0 := by
            rw [lost_eq]
            dsimp only
            omega
          obtain ⟨r', result, hrun', hconsistent', hencoded'', hwaiting'⟩ := ih hcommit (by
            unfold overflowTurns
            dsimp only at hkept' ⊢
            rw [hkept', if_pos rfl]
            omega)
          exact ⟨r', result, hrun', hconsistent', hencoded'.trans hencoded'',
            Nat.le_trans hwaiting' hwaiting⟩

/-! ## Sending -/

/-- The callback accepts a prefix of what it is offered, or nothing. -/
def AcceptsPrefix (script : Nat → Turn R) : Prop :=
  ∀ i offered sent, (script i).send offered = .accepted sent → sent ≤ offered.length

theorem AcceptsPrefix.tail (h : AcceptsPrefix script) :
    AcceptsPrefix fun i => script (i + 1) := fun i => h (i + 1)

theorem sentOf_le (h : AcceptsPrefix script) {offered : List (List UInt8)}
    {sent : Nat} (hsent : sentOf ((script 0).send offered) = .ok sent) : sent ≤ offered.length := by
  cases hanswer : (script 0).send offered with
  | accepted count =>
    rw [hanswer] at hsent
    obtain rfl := Except.ok.inj hsent
    exact h 0 offered count hanswer
  | wouldBlock =>
    rw [hanswer] at hsent
    obtain rfl := Except.ok.inj hsent
    exact Nat.zero_le _
  | failed error =>
    rw [hanswer] at hsent
    cases hsent

/-- A prefix of the waiting packets becomes sent; the log stays as it is. -/
theorem Consistent.sent (h : Consistent coding samples frameSize capacity 0 x) (now : Instant)
    (sent : Nat) (hsent : sent ≤ x.recorder.pendingTransmit.length) :
    ∃ pacer, x.recorder.pacer.commit now
        ((x.recorder.pendingTransmit.take sent).map EncodedPacket.packetMeta) = some pacer ∧
      Consistent coding samples frameSize capacity 0 (sentPrefix x pacer sent) ∧
      log (sentPrefix x pacer sent) = log x := by
  have horder := h.pending
  rw [← List.take_append_drop sent x.recorder.pendingTransmit, List.map_append] at horder
  obtain ⟨pacer, hcommit, hanchored, hrest, hlast⟩ := commit_spec h.anchored now horder
  have hlog : log (sentPrefix x pacer sent) = log x := by
    unfold log sentPrefix
    dsimp only
    rw [List.append_assoc, List.take_append_drop]
  refine ⟨pacer, hcommit, ⟨h.sameSamples, h.sameFrames, h.sized, ?_, ?_, ?_, ?_, ?_, hrest, ?_,
    hanchored, h.position⟩, hlog⟩
  · have hpool := h.pool
    unfold sentPrefix
    dsimp only
    rw [List.length_append, List.length_map, List.length_take, List.length_drop]
    omega
  · rw [hlog]
    exact h.numbered
  · rw [hlog]
    exact h.seq
  · rw [hlog]
    exact h.inOrder
  · rw [hlog]
    exact h.ends
  · obtain hsame | ⟨packetMeta, hmem, hend⟩ := hlast
    · show pacer.lastEndTs.getD 0 ≤ x.recorder.ts
      rw [hsame]
      exact h.paced
    · obtain ⟨packet, hpacket, rfl⟩ := List.mem_map.mp hmem
      show pacer.lastEndTs.getD 0 ≤ x.recorder.ts
      rw [hend]
      exact h.ends packet (List.mem_append_right _ (List.mem_of_mem_take hpacket))

/-- **Draining** moves the border between the sent packets and the waiting ones; it ends when none
waits, or with an error or a time to come back. -/
theorem drainEncoded_spec (turns : Nat) (h : Consistent coding samples frameSize capacity 0 x)
    (hturns : x.recorder.pendingTransmit.length < turns) (hscript : AcceptsPrefix script) :
    ∃ x' script' result, drainEncoded x script turns = some (x', script', result) ∧
      Consistent coding samples frameSize capacity 0 x' ∧ log x' = log x ∧
      x.transmitted <+: x'.transmitted ∧ x'.recorder.ring = x.recorder.ring ∧
      AcceptsPrefix script' ∧ (result = .ok none → x'.recorder.pendingTransmit = []) := by
  induction turns generalizing x script with
  | zero => omega
  | succ turns ih =>
    unfold drainEncoded
    dsimp only
    by_cases hempty : x.recorder.pendingTransmit.isEmpty
    · rw [if_pos hempty]
      exact ⟨x, script, .ok none, rfl, h, rfl, List.prefix_refl _, rfl, hscript,
        fun _ => List.isEmpty_iff.mp hempty⟩
    · rw [if_neg hempty]
      have hsome : x.recorder.pendingTransmit.map EncodedPacket.packetMeta ≠ [] := by
        intro hnil
        exact hempty (List.isEmpty_iff.mpr (List.map_eq_nil_iff.mp hnil))
      obtain ⟨decision, hinspect, hpermits, hwakes⟩ := inspect_spec h.anchored (script 0).now
        h.pending.positive hsome (show 0 < udpBatchSize by decide)
      rw [List.length_map] at hpermits
      rw [hinspect, Option.bind_some]
      by_cases hnone : decision.permits = 0
      · obtain ⟨wakeAt, hwakeAt⟩ := hwakes hnone
        rw [if_pos hnone, hwakeAt]
        exact ⟨x, _, .ok (some wakeAt), rfl, h, rfl, List.prefix_refl _, rfl, hscript.tail,
          fun hok => (by cases hok)⟩
      · rw [if_neg hnone]
        cases hanswer : sentOf ((script 0).send
            ((x.recorder.pendingTransmit.take decision.permits).map EncodedPacket.buffer)) with
        | error error =>
          exact ⟨x, _, .error error, rfl, h, rfl, List.prefix_refl _, rfl, hscript.tail,
            fun hok => (by cases hok)⟩
        | ok sent =>
          have hle := sentOf_le hscript hanswer
          rw [List.length_map, List.length_take] at hle
          obtain ⟨pacer, hcommit, hconsistent, hlog⟩ :=
            h.sent (script 0).now sent (by omega)
          dsimp only
          rw [if_neg (by omega), hcommit, Option.bind_some]
          have hprefix : x.transmitted <+: (sentPrefix x pacer sent).transmitted :=
            List.prefix_append _ _
          by_cases hpartial : sent < decision.permits
          · rw [if_pos hpartial]
            exact ⟨_, _, _, rfl, hconsistent, hlog, hprefix, rfl, hscript.tail,
              fun hok => (by cases hok)⟩
          · rw [if_neg hpartial]
            obtain ⟨x', script', result, hrun, hconsistent', hlog', hprefix', hring, hscript',
                hdone⟩ := ih hconsistent (by
              unfold sentPrefix
              dsimp only
              rw [List.length_drop]
              omega) hscript.tail
            exact ⟨x', script', result, hrun, hconsistent', hlog'.trans hlog,
              hprefix.trans hprefix', hring, hscript', hdone⟩

/-! ## Flushing -/

/-- What a flush does to a session: packets at the end of the log, which carry the samples of the
ring; more of the log is sent. -/
structure Flushed (samples frameSize : Nat) (x x' : Session T Enc Ciph) : Prop where
  same : SameSamples x.recorder.ring x'.recorder.ring
  sent : x.transmitted <+: x'.transmitted
  added : ∃ added, log x' = log x ++ added ∧
    ∀ packet ∈ added, Carries x.recorder.ring samples frameSize packet

theorem Encoded.flushed (h : Encoded samples frameSize x x') :
    Flushed samples frameSize x x' := by
  obtain ⟨hsame, htransmitted, added, hadded, hcarries⟩ := h
  refine ⟨hsame, ?_, added, ?_, hcarries⟩
  · exact htransmitted ▸ List.prefix_refl _
  · unfold log
    rw [htransmitted, hadded, List.append_assoc]

theorem Flushed.trans {x'' : Session T Enc Ciph} (h : Flushed samples frameSize x x')
    (h' : Flushed samples frameSize x' x'') : Flushed samples frameSize x x'' := by
  obtain ⟨hsame, hsent, added, hadded, hcarries⟩ := h
  obtain ⟨hsame', hsent', added', hadded', hcarries'⟩ := h'
  refine ⟨hsame.trans hsame', hsent.trans hsent', added ++ added', ?_, ?_⟩
  · rw [hadded', hadded, List.append_assoc]
  · intro packet hpacket
    obtain hold | hnew := List.mem_append.mp hpacket
    · exact hcarries packet hold
    · exact (hcarries' packet hnew).same hsame

/-- **A flush returns**, and keeps the recorder in step. -/
theorem flushLoop_spec (hwhole : Whole samples frameSize capacity)
    (hlimit : udpQueueSize + 1 < limit) (turns : Nat)
    (h : Consistent coding samples frameSize capacity 0 x)
    (hturns : waiting x.recorder.ring + (if x.recorder.pendingTransmit = [] then 0 else 1) < turns)
    (hscript : AcceptsPrefix script) :
    ∃ x' result, flushLoop coding limit x script turns = some (x', result) ∧
      Consistent coding samples frameSize capacity 0 x' ∧ Flushed samples frameSize x x' := by
  induction turns generalizing x script with
  | zero => omega
  | succ turns ih =>
    have hpool := h.pool
    obtain ⟨r, result, hencode, hconsistent, hencoded, hwaiting⟩ :=
      encodeAll_spec hwhole limit h (by unfold overflowTurns; split <;> omega)
    have hmore : x.recorder.pendingTransmit.length ≤ r.pendingTransmit.length := by
      obtain ⟨added, hadded, -⟩ := hencoded.added
      dsimp only at hadded
      rw [hadded, List.length_append]
      omega
    unfold flushLoop
    rw [hencode, Option.bind_some]
    cases result with
    | error error => exact ⟨_, .error error, rfl, hconsistent, hencoded.flushed⟩
    | ok done =>
      dsimp only
      by_cases hempty : r.pendingTransmit.isEmpty
      · rw [if_pos hempty]
        exact ⟨_, .ok none, rfl, hconsistent, hencoded.flushed⟩
      · rw [if_neg hempty]
        have hsome : 0 < r.pendingTransmit.length := by
          rcases Nat.eq_zero_or_pos r.pendingTransmit.length with hzero | hpos
          · exact absurd (List.isEmpty_iff.mpr (List.length_eq_zero_iff.mp hzero)) hempty
          · exact hpos
        have hpool' := hconsistent.pool
        dsimp only at hpool'
        obtain ⟨x', script', result, hdrain, hconsistent', hlog, hsent, hring, hscript', hdone⟩ :=
          drainEncoded_spec limit hconsistent (by dsimp only; omega) hscript
        have hflushed : Flushed samples frameSize { x with recorder := r } x' := by
          refine ⟨?_, hsent, [], ?_, fun packet hpacket => (by cases hpacket)⟩
          · rw [hring]
            exact SameSamples.refl _
          · rw [hlog, List.append_nil]
        have hboth := hencoded.flushed.trans hflushed
        rw [hdrain, Option.bind_some]
        cases result with
        | error error => exact ⟨x', .error (.rtsp error), rfl, hconsistent', hboth⟩
        | ok wake =>
          cases wake with
          | some wakeAt => exact ⟨x', .ok (some wakeAt), rfl, hconsistent', hboth⟩
          | none =>
            have hnone := hdone rfl
            obtain ⟨x'', result, hrun, hconsistent'', hflushed'⟩ := ih hconsistent' (by
              rw [hnone, if_pos rfl, hring]
              dsimp only
              by_cases hbefore : x.recorder.pendingTransmit = []
              · rw [if_pos hbefore] at hturns
                rw [hbefore, List.length_nil] at hwaiting
                omega
              · rw [if_neg hbefore] at hturns
                omega) hscript'
            exact ⟨x'', result, hrun, hconsistent'', hboth.trans hflushed'⟩

/-! ## Runs -/

/-- The producer writes samples, or the session flushes. -/
inductive RecordingInput (T R : Type)
  | write (input : List T)
  | flush (script : Nat → Turn R)

variable (coding) in
/-- A failed flush leaves the session as far as it came. -/
def recordingStep (limit : Nat) (x : Session T Enc Ciph) :
    RecordingInput T R → Option (Session T Enc Ciph)
  | .write input =>
    some { x with recorder := { x.recorder with ring := (x.recorder.ring.write input).1 } }
  | .flush script => (flush coding limit x script).map Prod.fst

/-- The samples that the producer wrote. -/
def writtenSamples (inputs : List (RecordingInput T R)) : List T :=
  inputs.flatMap fun
    | .write input => input
    | .flush _ => []

variable (coding) in
/-- What an input does: the log grows, by packets that carry what the ring has; and so does the
part of it that was sent. -/
def LogGrows (limit samples frameSize : Nat) (x : Session T Enc Ciph)
    (input : RecordingInput T R) : Prop :=
  ∃ x', recordingStep coding limit x input = some x' ∧ x.transmitted <+: x'.transmitted ∧
    ∃ added, log x' = log x ++ added ∧
      ∀ packet ∈ added, Carries x.recorder.ring samples frameSize packet

/-- **One input** keeps the recorder in step. -/
theorem recordingStep_spec (hwhole : Whole samples frameSize capacity)
    (hlimit : capacity + udpQueueSize + 2 ≤ limit)
    (h : Consistent coding samples frameSize capacity 0 x) (input : RecordingInput T R)
    (hinput : ∀ script, input = .flush script → AcceptsPrefix script) :
    LogGrows coding limit samples frameSize x input ∧
      ∃ x', recordingStep coding limit x input = some x' ∧
        Consistent coding samples frameSize capacity 0 x' ∧
        ∀ script, input = .flush script → SameSamples x.recorder.ring x'.recorder.ring := by
  cases input with
  | write input =>
    obtain ⟨hsized, hread⟩ := h.sized.write input
    refine ⟨⟨_, rfl, List.prefix_refl _, [], ?_, fun packet hpacket => (by cases hpacket)⟩, _, rfl,
      ⟨h.sameSamples, h.sameFrames, hsized, h.pool, h.numbered, h.seq, h.inOrder, h.ends,
        h.pending, h.paced, h.anchored, ?_⟩, fun script hscript => (by cases hscript)⟩
    · rw [List.append_nil]
      rfl
    · dsimp only
      rw [hread]
      exact h.position
  | flush script =>
    have hwaiting : waiting x.recorder.ring ≤ capacity := by
      have hsame := h.sized.same
      unfold waiting
      omega
    have hqueue : udpQueueSize + 1 < limit := by omega
    obtain ⟨x', result, hflush, hconsistent, hflushed⟩ :=
      flushLoop_spec hwhole hqueue limit h (by split <;> omega)
        (hinput script rfl)
    have hstep : recordingStep coding limit x (.flush script) = some x' := by
      exact congrArg (Option.map Prod.fst) hflush
    exact ⟨⟨x', hstep, hflushed.sent, hflushed.added⟩, x', hstep, hconsistent,
      fun _ _ => hflushed.same⟩

/-- A packet has the samples of the timeline that its timestamp names. -/
def OnTimeline (cells : List T) (samples frameSize : Nat) (packet : EncodedPacket T) : Prop :=
  packet.packetMeta.firstTs * frameSize + samples ≤ cells.length ∧
    ∀ i, i < samples → packet.frames[i]? = cells[packet.packetMeta.firstTs * frameSize + i]?

theorem OnTimeline.append {frameSize : Nat}
    (h : OnTimeline cells samples frameSize packet) (more : List T) :
    OnTimeline (cells ++ more) samples frameSize packet := by
  refine ⟨?_, fun i hi => ?_⟩
  · rw [List.length_append]
    exact Nat.le_trans h.1 (Nat.le_add_right _ _)
  · rw [h.2 i hi, List.getElem?_append_left (Nat.lt_of_lt_of_le (by omega) h.1)]

/-- What a ring holds is what its packets carry. -/
theorem Carries.onTimeline {ring : RingBuffer T} {frameSize : Nat}
    (h : Carries ring samples frameSize packet)
    (hholds : Holds ring cells 0) : OnTimeline cells samples frameSize packet := by
  have hwritten := hholds.written
  have hlow := h.written
  have hkept := h.kept
  refine ⟨by omega, fun i hi => ?_⟩
  rw [h.frames i hi]
  exact (hholds.cells (packet.packetMeta.firstTs * frameSize + i) (by omega) (by omega)).1

/-- **The timeline of a run**: the packets have the samples that the producer wrote. -/
theorem run_onTimeline (hwhole : Whole samples frameSize capacity)
    (hlimit : capacity + udpQueueSize + 2 ≤ limit) (inputs : List (RecordingInput T R))
    (h : Consistent coding samples frameSize capacity 0 x) (hholds : Holds x.recorder.ring cells 0)
    (hlog : ∀ packet ∈ log x, OnTimeline cells samples frameSize packet)
    (hcallbacks : ∀ script, .flush script ∈ inputs → AcceptsPrefix script)
    (hlands : ∀ input, .write input ∈ inputs → LandsInPlace capacity input)
    (hroom : (cells ++ writtenSamples inputs).length < 2 ^ 64)
    (hrun : run (recordingStep coding limit) x inputs = some x') :
    ∀ packet ∈ log x', OnTimeline (cells ++ writtenSamples inputs) samples frameSize packet := by
  induction inputs generalizing x cells with
  | nil =>
    obtain rfl := Option.some.inj hrun
    intro packet hpacket
    exact (hlog packet hpacket).append _
  | cons input inputs ih =>
    obtain ⟨t, ht, hrest⟩ := run_cons_eq_some.mp hrun
    obtain ⟨⟨t₁, ht₁, -, added, hadded, hcarries⟩, t₂, ht₂, hconsistent, hsame⟩ :=
      recordingStep_spec hwhole hlimit h input
        (fun script hscript => hcallbacks script (hscript ▸ List.mem_cons_self))
    obtain rfl := Option.some.inj (ht.symm.trans ht₁)
    obtain rfl := Option.some.inj (ht.symm.trans ht₂)
    have hcallbacks' : ∀ script, .flush script ∈ inputs → AcceptsPrefix script :=
      fun script hscript => hcallbacks script (List.mem_cons_of_mem _ hscript)
    have hlands' : ∀ input, .write input ∈ inputs → LandsInPlace capacity input :=
      fun input hinput => hlands input (List.mem_cons_of_mem _ hinput)
    cases input with
    | write input =>
      have hsplit : cells ++ writtenSamples (.write input :: inputs : List (RecordingInput T R)) =
          (cells ++ input) ++ writtenSamples inputs := by
        unfold writtenSamples
        rw [List.flatMap_cons, List.append_assoc]
      rw [hsplit] at hroom ⊢
      obtain rfl := Option.some.inj ht
      have hwritten := hholds.written
      have hlength := hroom
      rw [List.length_append, List.length_append] at hlength
      refine ih hconsistent ?_ ?_ hcallbacks' hlands' hroom hrest
      · refine hholds.write (by omega) ?_
        rw [h.sized.same]
        exact hlands input List.mem_cons_self
      · intro packet hpacket
        exact (hlog packet hpacket).append input
    | flush script =>
      have hsplit : cells ++ writtenSamples (.flush script :: inputs) =
          cells ++ writtenSamples inputs := rfl
      rw [hsplit] at hroom ⊢
      refine ih hconsistent (hholds.same (hsame script rfl)) ?_ hcallbacks' hlands' hroom hrest
      intro packet hpacket
      rw [hadded] at hpacket
      obtain hold | hnew := List.mem_append.mp hpacket
      · exact hlog packet hold
      · exact (hcarries packet hnew).onTimeline hholds

variable (coding) in
/-- A new recorder is in step with its empty ring. -/
theorem consistent_new [Inhabited T] {encoder : Enc} {cipher : Ciph} {streamType sampleRate : Nat}
    {mapped : Bool} {elemsPerPage : Nat} {r : RtpRecorder T Enc Ciph}
    (hnew : RtpRecorder.new encoder cipher streamType sampleRate samples frameSize mapped
      elemsPerPage = some r) :
    Consistent coding samples frameSize r.ring.capacity 0 ⟨r, []⟩ ∧ Holds r.ring [] 0 ∧
      samples ≤ r.ring.capacity ∧ log ⟨r, []⟩ = [] := by
  unfold RtpRecorder.new at hnew
  dsimp only at hnew
  split at hnew
  · cases hnew
  · obtain ⟨pacer, hpacer, rfl⟩ := Option.map_eq_some_iff.mp hnew
    have hpacer' : pacer.lastEndTs = none ∧ Anchored pacer := by
      unfold RtpTxPacer.new at hpacer
      split at hpacer
      · cases hpacer
      · obtain rfl := Option.some.inj hpacer
        refine ⟨rfl, fun _ => rfl, ?_⟩
        have hinterval : udpInterval sampleRate (samples / frameSize) ≤ 1000000 :=
          Nat.min_le_right _ _
        exact Nat.lt_of_le_of_lt (Nat.mul_le_mul_right 3 hinterval) (by decide)
    have hroom := le_spsc_capacity (T := T) mapped elemsPerPage
      (samples * packetsRingMultiplier)
    refine ⟨⟨rfl, rfl, sized_new mapped _, rfl, fun index packet hpacket => (by cases hpacket),
      rfl, trivial, fun packet hpacket => (by cases hpacket), trivial, ?_, hpacer'.2, ?_⟩,
      holds_new mapped _, ?_, rfl⟩
    · dsimp only
      rw [hpacer'.1]
      exact Nat.le_refl _
    · show 0 + 0 = 0 * frameSize
      rw [Nat.zero_mul]
    · refine Nat.le_trans ?_ hroom
      exact Nat.le_mul_of_pos_right samples (by decide)

/-- **The recording pipeline**, in every interleaving of writes and flushes. -/
theorem recording_keepsOrder [Inhabited T] (coding : Coding T Enc Ciph E R) (encoder : Enc)
    (cipher : Ciph) (streamType sampleRate samples frameSize : Nat) (mapped : Bool)
    (elemsPerPage : Nat) {r : RtpRecorder T Enc Ciph} (hpositive : samples ≠ 0)
    (hwhole : frameSize ∣ samples)
    (hnew : RtpRecorder.new encoder cipher streamType sampleRate samples frameSize mapped
      elemsPerPage = some r)
    (limit : Nat) (hlimit : r.ring.capacity + udpQueueSize + 2 ≤ limit)
    (inputs : List (RecordingInput T R))
    (hcallbacks : ∀ script, .flush script ∈ inputs → AcceptsPrefix script) :
    ∃ x, run (recordingStep coding limit) ⟨r, []⟩ inputs = some x ∧
      (∀ index packet, (x.transmitted ++ x.recorder.pendingTransmit)[index]? = some packet →
        Numbered coding x.recorder.streamType samples (samples / frameSize) index packet) ∧
      InOrder 0 ((x.transmitted ++ x.recorder.pendingTransmit).map EncodedPacket.packetMeta) ∧
      x.recorder.emptyBuffers.length + x.recorder.pendingTransmit.length = 16 ∧
      AllSteps (recordingStep coding limit) (LogGrows coding limit samples frameSize) ⟨r, []⟩
        inputs ∧
      ((∀ input, .write input ∈ inputs → LandsInPlace r.ring.capacity input) →
        (writtenSamples inputs).length < 2 ^ 64 →
        ∀ packet ∈ x.transmitted ++ x.recorder.pendingTransmit,
          OnTimeline (writtenSamples inputs) samples frameSize packet) := by
  obtain ⟨hconsistent, hholds, hfits, hempty⟩ := consistent_new coding hnew
  have hall : Whole samples frameSize r.ring.capacity :=
    ⟨Nat.pos_of_ne_zero hpositive, hwhole, hfits⟩
  have hinputs : AllSteps (recordingStep coding limit)
      (fun _ input => ∀ script, input = .flush script → AcceptsPrefix script)
      (⟨r, []⟩ : Session T Enc Ciph) inputs :=
    allSteps_of_mem (fun input hinput _ script hscript => by
      rw [hscript] at hinput
      exact hcallbacks script hinput) _
  obtain ⟨hgrows, x, hrun, hconsistent'⟩ := run_progress
    (fun x => Consistent coding samples frameSize r.ring.capacity 0 x) _
    (LogGrows coding limit samples frameSize)
    (by
      intro x input hx hinput
      obtain ⟨hgrows, x', hx', hconsistent', -⟩ := recordingStep_spec hall hlimit hx _ hinput
      exact ⟨hgrows, x', hx', hconsistent'⟩)
    hconsistent hinputs
  refine ⟨x, hrun, hconsistent'.numbered, hconsistent'.inOrder, hconsistent'.pool, hgrows, ?_⟩
  intro hlands hroom
  refine run_onTimeline hall hlimit inputs hconsistent hholds (fun packet hpacket => ?_)
    hcallbacks hlands hroom hrun
  rw [hempty] at hpacket
  cases hpacket

/-- An encoder that keeps the samples as they are, and no cipher. -/
def plainCoding : Coding UInt8 Unit Unit Unit Unit where
  encode := fun _ frames => ((), .ok (frames, frames.length))
  encrypt := fun _ payload _ => ((), .ok payload)

/-- A callback that accepts all that it is offered. -/
def sendAll : Nat → Turn Unit := fun _ => ⟨0, fun offered => .accepted offered.length, 0⟩

/-- A packet of two stereo frames is written, encoded and sent. -/
theorem recording_keepsOrder_packet : ∃ (r : RtpRecorder UInt8 Unit Unit) (x : _),
    RtpRecorder.new () () 100 48000 4 2 false 1 = some r ∧
      run (recordingStep plainCoding (r.ring.capacity + udpQueueSize + 2)) ⟨r, []⟩
        [.write [1, 2, 3, 4], .flush sendAll] = some x ∧
      x.recorder.emptyBuffers.length + x.recorder.pendingTransmit.length = 16 ∧
      ∀ packet ∈ x.transmitted ++ x.recorder.pendingTransmit,
        OnTimeline [1, 2, 3, 4] 4 2 packet := by
  obtain ⟨r, hr⟩ : ∃ r : RtpRecorder UInt8 Unit Unit,
      RtpRecorder.new () () 100 48000 4 2 false 1 = some r := ⟨_, rfl⟩
  obtain ⟨-, -, hfits, -⟩ := consistent_new plainCoding hr
  obtain ⟨x, hrun, -, -, hpool, -, htimeline⟩ := recording_keepsOrder plainCoding () () 100 48000 4 2
    false 1 (by decide) (by decide) hr _ (Nat.le_refl _) [.write [1, 2, 3, 4], .flush sendAll] (by
      intro script hscript i offered sent hsent
      obtain hwrite | hflush := List.mem_pair.mp hscript
      · cases hwrite
      · obtain rfl := RecordingInput.flush.inj hflush
        obtain rfl := SendAnswer.accepted.inj hsent
        exact Nat.le_refl _)
  refine ⟨r, x, hr, hrun, hpool, htimeline ?_ ?_⟩
  · intro input hinput
    obtain hwrite | hflush := List.mem_pair.mp hinput
    · obtain rfl := RecordingInput.write.inj hwrite
      exact Or.inl hfits
    · cases hflush
  · decide

end Catplay.Analysis.Rtp
