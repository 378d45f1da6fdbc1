import Catplay.Analysis.Link.Stream
import Catplay.Model.Client.AsyncClient

/-!
# What a corrupted frame costs

A read calls the decoder until it finds no frame or fails. A packet whose payload checksum is wrong
is dropped whole; a frame that is refused for anything else stays, and fails again in every later
read. And what is complete behind a dropped packet waits for the next read. Where neither happens
the frames of the whole stream are delivered as if it came in one piece (`frames_of_run`), and a
corrupted frame costs only itself if its bytes are absorbed (`corruption_costs_itself`).
-/

set_option autoImplicit false

namespace Catplay.Analysis.Client.Corruption

open Catplay.Library.Run Catplay.Library.StreamDecoder
open Catplay.Model Catplay.Model.Link Catplay.Model.Client Catplay.Analysis.Link

/-! ## The calls of a read -/

/-- The buffers that the decoder is called with, the frames it returns and the buffer it leaves. -/
structure Reading where
  calls : List Bytes
  frames : List PacketOrDetect
  left : Bytes

/-- The loop of `read_frame_buf`, with the decoder alone. -/
def reading (coder : PacketCoder) : Nat → Bytes → Reading
  | 0, src => ⟨[], [], src⟩
  | fuel + 1, src =>
    match coder.decode src with
    | (.ok (some frame), rest) =>
      let later := reading coder fuel rest
      ⟨src :: later.calls, frame :: later.frames, later.left⟩
    | (_, rest) => ⟨[src], [], rest⟩

/-- What a read of a client amounts to. -/
def readingOf (s : AsyncClient) (buf : Bytes) : Reading :=
  reading s.coder ((s.rxBuf ++ buf).length + 1) (s.rxBuf ++ buf)

/-- The frames that the reads of a run hand to the link. -/
def delivered : AsyncClient → List Bytes → List PacketOrDetect
  | _, [] => []
  | s, buf :: chunks =>
    (readingOf s buf).frames ++ ((s.readFrameBuf buf).elim [] fun t => delivered t chunks)

/-! ## Statements -/

/-- A complete frame, in front or behind something that cannot be decoded. -/
inductive HoldsFrame (coder : PacketCoder) : Bytes → Prop
  | here {src rest : Bytes} {frame : PacketOrDetect}
      (hdecode : coder.decode src = (.ok (some frame), rest)) : HoldsFrame coder src
  | behind {src rest : Bytes} {error : PacketCoderError}
      (hdecode : coder.decode src = (.error error, rest))
      (hbehind : HoldsFrame coder (if rest.length < src.length then rest else src.drop 1)) :
      HoldsFrame coder src

/-- Every failure of the decoder in a read takes a byte, and the read leaves no frame. -/
def Recovers (s : AsyncClient) (buf : Bytes) : Prop :=
  (∀ src ∈ (readingOf s buf).calls, ∀ error rest, s.coder.decode src = (.error error, rest) →
    rest.length < src.length) ∧
  ∀ t, s.readFrameBuf buf = some t → ¬ HoldsFrame s.coder t.rxBuf

/-- Where the length of a frame stands in its bytes. -/
def lengthField : PacketOrDetect → List Nat
  | .packet _ => [2, 3]
  | .legacy body => if body.length ≤ 255 then [1] else [1, 2, 3]
  | .detect => [2]

/-- A checksum of the bytes that were a frame is wrong. -/
def ChecksumFails (frame : PacketOrDetect) (bytes : Bytes) : Prop :=
  match frame with
  | .packet _ =>
    ¬ iap2CheckChecksum (bytes.take iap2HeaderSize) ∨
      bytes.drop iap2HeaderSize ≠ [] ∧ ¬ iap2CheckChecksumFast (bytes.drop iap2HeaderSize)
  | .legacy _ => ¬ iap2CheckChecksumFast (bytes.drop 1)
  | .detect => ¬ iap2CheckChecksumFast (bytes.drop 2)

/-- The bytes of a frame were altered outside its length, and a checksum fails. -/
structure Altered (frame : PacketOrDetect) (original altered : Bytes) : Prop where
  length : altered.length = original.length
  lengthField : ∀ i ∈ lengthField frame, altered[i]? = original[i]?
  fails : ChecksumFails frame altered

/-- A list of encoded frames of which one was altered, and the frames behind that one. -/
def Corrupted (stream altered : Bytes) (after : List (Nat × PacketOrDetect)) : Prop :=
  ∃ before front frame original back,
    (∀ entry ∈ before, Link.Encodable entry.2) ∧ encodeStream before = .ok front ∧
    Link.Encodable frame ∧ PacketCoder.encode frame = .ok original ∧ Altered frame original altered ∧
    (∀ entry ∈ after, Link.Encodable entry.2) ∧ encodeStream after = .ok back ∧
    stream = front ++ altered ++ back

/-- The frames behind the altered one are delivered by the run. -/
def FollowersDelivered (s : AsyncClient) (chunks : List Bytes) (altered : Bytes)
    (after : List (Nat × PacketOrDetect)) : Prop :=
  ∀ t, run AsyncClient.readFrameBuf s chunks = some t → Corrupted chunks.flatten altered after →
    after.map Prod.snd <:+ delivered s chunks

/-- Every read recovers, and a corrupted frame costs only itself. -/
def CostsOnlyItself (s : AsyncClient) (chunks : List Bytes) : Prop :=
  AllSteps AsyncClient.readFrameBuf Recovers s chunks ∧
    ∀ altered after, FollowersDelivered s chunks altered after

/-! ## The condition -/

/-- A packet in front that is refused for its header. -/
def RefusedPacket (src : Bytes) : Prop :=
  src.take 2 = [0xff, 0x5a] ∧ iap2HeaderSize ≤ src.length ∧
    ∀ header, Header.parse src = .ok header → header.length.toNat < iap2HeaderSize

/-- An iAP1 frame in front that is refused for its length, its command or its checksum. -/
def RefusedLegacy (src : Bytes) : Prop :=
  src.head? = some 0x55 ∧ 2 ≤ src.length ∧
    match Lingo.FrameCodec.decode src with
    | .error _ => True
    | .ok none => False
    | .ok (some (_, frameLen)) =>
      frameLen < src.length ∧ ¬ iap2CheckChecksumFast ((src.take (frameLen + 1)).drop 1)

/-- No call of a read finds a refused frame in front, and none that fails has a complete frame
behind it. -/
def Clean (s : AsyncClient) (buf : Bytes) : Prop :=
  ∀ src ∈ (readingOf s buf).calls, ¬ RefusedPacket src ∧ ¬ RefusedLegacy src ∧
    ((s.readFrameBuf buf).isSome → ∀ error rest, s.coder.decode src = (.error error, rest) →
      ¬ HoldsFrame s.coder rest)

/-- Bytes that the decoder gets over: they start no marker, or are packets with a right header,
whatever their payload, or right iAP1 frames. -/
inductive Absorbed : Bytes → Prop
  | nil : Absorbed []
  | skipped {x : UInt8} {rest : Bytes} (hlegacy : x ≠ 0x55)
      (hpacket : ¬(x = 0xff ∧ rest.head? = some 0x5a)) (hrest : Absorbed rest) :
      Absorbed (x :: rest)
  | packet {front rest : Bytes} {header : Header} (hparse : Header.parse front = .ok header)
      (hlength : header.length.toNat = front.length) (hrest : Absorbed rest) :
      Absorbed (front ++ rest)
  | legacy {body encoded rest : Bytes} (hencode : Lingo.FrameCodec.encode body = .ok encoded)
      (hrest : Absorbed rest) :
      Absorbed (encoded ++ iap2GenChecksumFast (encoded.drop 1) :: rest)

/-! ## The link takes what the decoder returns -/

theorem callLink_rxBuf (s : AsyncClient) (rxBuf : Bytes) (call : Session.Call) :
    ({ s with rxBuf } : AsyncClient).callLink call =
      (s.callLink call).map fun t => { t with rxBuf } := by
  unfold AsyncClient.callLink
  dsimp only
  rw [Option.map_map]
  rfl

variable {s t : AsyncClient} {rest src stream : Bytes}

theorem callLink_coder {call : Session.Call} (h : s.callLink call = some t) :
    t.coder = s.coder ∧ t.rxBuf = s.rxBuf := by
  obtain ⟨link, -, rfl⟩ := Option.map_eq_some_iff.mp h
  exact ⟨rfl, rfl⟩

/-- Hand a frame to the link. -/
def handToLink (s : AsyncClient) (frame : PacketOrDetect) : Option AsyncClient :=
  s.callLink (.read frame)

theorem foldlM_rxBuf (frames : List PacketOrDetect) (s : AsyncClient) (rxBuf : Bytes) :
    frames.foldlM handToLink { s with rxBuf } =
      (frames.foldlM handToLink s).map fun t => { t with rxBuf } := by
  induction frames generalizing s with
  | nil => rfl
  | cons frame frames ih =>
    rw [List.foldlM_cons, List.foldlM_cons]
    unfold handToLink at ih ⊢
    rw [callLink_rxBuf]
    cases s.callLink (.read frame) with
    | none => rfl
    | some t => exact ih t

theorem foldlM_coder {frames : List PacketOrDetect}
    (h : frames.foldlM handToLink s = some t) : t.coder = s.coder := by
  induction frames generalizing s with
  | nil =>
    obtain rfl := Option.some.inj h
    rfl
  | cons frame frames ih =>
    obtain ⟨s₁, hfirst, hrest⟩ := Option.bind_eq_some_iff.mp h
    exact (ih hrest).trans (callLink_coder hfirst).1

/-- The loop hands the frames to the link and leaves what the decoder leaves. -/
theorem readFrames_eq (fuel : Nat) (s : AsyncClient) :
    s.readFrames fuel =
      ((reading s.coder fuel s.rxBuf).frames.foldlM handToLink s).map fun t =>
        { t with rxBuf := (reading s.coder fuel s.rxBuf).left } := by
  induction fuel generalizing s with
  | zero => rfl
  | succ fuel ih =>
    rw [AsyncClient.readFrames, reading]
    rcases s.coder.decode s.rxBuf with ⟨e | frame, rest⟩
    · rfl
    · cases frame with
      | none => rfl
      | some frame =>
        dsimp only
        rw [List.foldlM_cons, callLink_rxBuf]
        unfold handToLink at ih ⊢
        cases hcall : s.callLink (.read frame) with
        | none => rfl
        | some t =>
          have hcoder : t.coder = s.coder := (callLink_coder hcall).1
          simp only [Option.map_some, Option.bind_eq_bind, Option.bind_some]
          have hfold := foldlM_rxBuf (reading t.coder fuel rest).frames t rest
          unfold handToLink at hfold
          rw [ih, hfold]
          simp only [hcoder, Option.map_map]
          rfl

theorem readFrameBuf_eq (s : AsyncClient) (buf : Bytes) :
    s.readFrameBuf buf =
      ((readingOf s buf).frames.foldlM handToLink s).map fun t =>
        { t with rxBuf := (readingOf s buf).left } := by
  unfold AsyncClient.readFrameBuf
  dsimp only
  rw [readFrames_eq, foldlM_rxBuf, Option.map_map]
  rfl

theorem readFrameBuf_spec {buf : Bytes} (h : s.readFrameBuf buf = some t) :
    t.coder = s.coder ∧ t.rxBuf = (readingOf s buf).left := by
  rw [readFrameBuf_eq] at h
  obtain ⟨t', hfold, rfl⟩ := Option.map_eq_some_iff.mp h
  have hcoder : t'.coder = s.coder := foldlM_coder hfold
  exact ⟨hcoder, rfl⟩

/-! ## How a read ends -/

section Ends

variable {coder : PacketCoder}

variable {src : Bytes}

/-- A call that fails is the last one. -/
theorem reading_error {fuel : Nat} {call rest : Bytes} {error : PacketCoderError}
    (hcall : call ∈ (reading coder fuel src).calls)
    (hdecode : coder.decode call = (.error error, rest)) :
    (reading coder fuel src).left = rest := by
  induction fuel generalizing src with
  | zero => cases hcall
  | succ fuel ih =>
    rw [reading] at hcall ⊢
    rcases hfirst : coder.decode src with ⟨e | frame, rest'⟩
    · rw [hfirst] at hcall
      obtain rfl := List.mem_singleton.mp hcall
      exact (Prod.mk.inj (hfirst.symm.trans hdecode)).2
    · rw [hfirst] at hcall
      cases frame with
      | none =>
        obtain rfl := List.mem_singleton.mp hcall
        rw [hfirst] at hdecode
        cases hdecode
      | some frame =>
        obtain rfl | hlater := List.mem_cons.mp hcall
        · rw [hfirst] at hdecode
          cases hdecode
        · exact ih hlater

/-- A read ends with a call that fails or asks for more. -/
theorem reading_ends {fuel : Nat} (hfuel : src.length < fuel) :
    ∃ call ∈ (reading coder fuel src).calls,
      coder.decode call = (.ok none, (reading coder fuel src).left) ∨
        ∃ error, coder.decode call = (.error error, (reading coder fuel src).left) := by
  induction fuel generalizing src with
  | zero => exact absurd hfuel (Nat.not_lt_zero _)
  | succ fuel ih =>
    rw [reading]
    have hconsumes := consumes_decode coder src
    rcases hfirst : coder.decode src with ⟨e | frame, rest⟩
    · exact ⟨src, List.mem_singleton_self src, .inr ⟨e, hfirst⟩⟩
    · cases frame with
      | none => exact ⟨src, List.mem_singleton_self src, .inl hfirst⟩
      | some frame =>
        rw [hfirst] at hconsumes
        have hshorter : rest.length < src.length :=
          Nat.lt_of_lt_of_le hconsumes (rewind_length_le src)
        obtain ⟨call, hcall, hend⟩ := ih (Nat.lt_of_lt_of_le hshorter (Nat.le_of_lt_succ hfuel))
        exact ⟨call, List.mem_cons_of_mem _ hcall, hend⟩

/-- What a request for more leaves holds no frame. -/
theorem not_holdsFrame {rest : Bytes} (hdecode : coder.decode src = (.ok none, rest)) :
    ¬ HoldsFrame coder rest := by
  have hagain : coder.decode rest = (.ok none, rest) := by
    have hmore := decode_more hdecode []
    rw [List.append_nil, List.append_nil, hdecode] at hmore
    exact hmore.symm
  intro hholds
  cases hholds with
  | here hframe =>
    rw [hagain] at hframe
    cases hframe
  | behind herror _ =>
    rw [hagain] at herror
    cases herror

end Ends

/-! ## Failures that take nothing -/

theorem rewind_suffix (src : Bytes) : (PacketCoder.rewind src).2 <:+ src := by
  fun_induction PacketCoder.rewind src with
  | case1 => exact List.suffix_rfl
  | case2 x =>
    split
    · exact List.suffix_rfl
    · exact List.nil_suffix
  | case3 => exact List.suffix_rfl
  | case4 => exact List.suffix_rfl
  | case5 x y src hiap2 hlegacy ih => exact ih.trans (List.suffix_cons x (y :: src))

/-- The marker that was found. -/
theorem rewind_start {start : FrameStart} (h : PacketCoder.rewind src = (some start, rest)) :
    (start = .iap2 → ∃ tail, rest = 0xff :: 0x5a :: tail) ∧
      (start = .legacy → ∃ y tail, rest = 0x55 :: y :: tail) := by
  fun_induction PacketCoder.rewind src with
  | case1 => cases h
  | case2 x => cases h
  | case3 x y src hiap2 =>
    obtain ⟨hstart, rfl⟩ := Prod.mk.inj h
    refine ⟨fun _ => ⟨src, by rw [hiap2.1, hiap2.2]⟩, ?_⟩
    rintro rfl
    cases hstart
  | case4 y src =>
    obtain ⟨hstart, rfl⟩ := Prod.mk.inj h
    refine ⟨?_, fun _ => ⟨y, src, rfl⟩⟩
    rintro rfl
    cases hstart
  | case5 x y src hiap2 hlegacy ih => exact ih h

theorem decodeLegacy_suffix (src : Bytes) : (PacketCoder.decodeLegacy src).2 <:+ src := by
  unfold PacketCoder.decodeLegacy
  rcases Lingo.FrameCodec.decode src with e | _ | ⟨frame, frameLen⟩
  · exact List.suffix_rfl
  · exact List.suffix_rfl
  · dsimp only
    split
    · exact List.suffix_rfl
    · split
      · exact List.suffix_rfl
      · split <;> exact List.drop_suffix _ src

theorem decodePacket_suffix (coder : PacketCoder) (src : Bytes) :
    (coder.decodePacket src).2 <:+ src := by
  unfold PacketCoder.decodePacket
  split
  · split <;> exact List.suffix_rfl
  · cases Header.parse src with
    | error e => exact List.suffix_rfl
    | ok header =>
      dsimp only
      split
      · exact List.suffix_rfl
      · split
        · split <;> exact List.suffix_rfl
        · exact List.drop_suffix _ src

theorem decode_suffix (coder : PacketCoder) (src : Bytes) : (coder.decode src).2 <:+ src := by
  have hsuffix := rewind_suffix src
  unfold PacketCoder.decode
  rcases hrewind : PacketCoder.rewind src with ⟨_ | start, rest⟩
  · rw [hrewind] at hsuffix
    exact hsuffix
  · rw [hrewind] at hsuffix
    cases start with
    | legacy => exact (decodeLegacy_suffix rest).trans hsuffix
    | iap2 => exact (decodePacket_suffix coder rest).trans hsuffix

/-- A packet that fails is dropped, unless its header is refused. -/
theorem decodePacket_error {coder : PacketCoder} (hstreaming : coder.streamingMode = true)
    {error : PacketCoderError} (h : coder.decodePacket src = (.error error, rest)) :
    rest.length < src.length ∨ iap2HeaderSize ≤ src.length ∧
      ∀ header, Header.parse src = .ok header → header.length.toNat < iap2HeaderSize := by
  unfold PacketCoder.decodePacket at h
  simp only [hstreaming, Bool.not_true, Bool.false_eq_true, if_false] at h
  by_cases hshort : src.length < iap2HeaderSize
  · rw [if_pos hshort] at h
    cases h
  rw [if_neg hshort] at h
  cases hparse : Header.parse src with
  | error e => exact .inr ⟨Nat.le_of_not_lt hshort, by simp⟩
  | ok header =>
    rw [hparse] at h
    dsimp only at h
    by_cases hlength : header.length.toNat < iap2HeaderSize
    · refine .inr ⟨Nat.le_of_not_lt hshort, ?_⟩
      rintro other hother
      rwa [← Except.ok.inj hother]
    rw [if_neg hlength] at h
    split at h
    · cases h
    · obtain ⟨-, rfl⟩ := Prod.mk.inj h
      left
      rw [List.length_drop]
      unfold iap2HeaderSize at hlength hshort
      omega

/-- A refused header fails, and the packet stays. -/
theorem decodePacket_refused (coder : PacketCoder) (hlength : iap2HeaderSize ≤ src.length)
    (hheader : ∀ header, Header.parse src = .ok header → header.length.toNat < iap2HeaderSize) :
    ∃ error, coder.decodePacket src = (.error error, src) := by
  unfold PacketCoder.decodePacket
  rw [if_neg (Nat.not_lt_of_le hlength)]
  cases hparse : Header.parse src with
  | error e => exact ⟨e, rfl⟩
  | ok header =>
    dsimp only
    rw [if_pos (hheader header hparse)]
    exact ⟨_, rfl⟩

/-- An iAP1 frame fails exactly when it is refused, and it stays. -/
theorem decodeLegacy_error_iff (hstart : src.head? = some 0x55) (hlength : 2 ≤ src.length) :
    (∃ error rest, PacketCoder.decodeLegacy src = (.error error, rest)) ↔ RefusedLegacy src := by
  unfold PacketCoder.decodeLegacy RefusedLegacy
  simp only [hstart, hlength, true_and]
  rcases Lingo.FrameCodec.decode src with e | _ | ⟨frame, frameLen⟩
  · simp
  · simp
  · dsimp only
    by_cases hshort : src.length < frameLen + 1
    · rw [if_pos hshort]
      simp only [Prod.mk.injEq, reduceCtorEq, false_and, exists_false, false_iff]
      rintro ⟨hlen, -⟩
      omega
    rw [if_neg hshort]
    have hlen : frameLen < src.length := by omega
    by_cases hcheck : iap2CheckChecksumFast ((src.take (frameLen + 1)).drop 1) = true
    · rw [if_neg (by rw [hcheck]; decide)]
      simp only [hcheck, not_true_eq_false, and_false, iff_false]
      rintro ⟨error, rest, h⟩
      split at h <;> cases h
    · rw [if_pos (by rw [Bool.eq_false_iff.mpr hcheck]; rfl)]
      exact ⟨fun _ => ⟨hlen, hcheck⟩, fun _ => ⟨_, _, rfl⟩⟩

theorem decodeLegacy_error_rest {error : PacketCoderError}
    (h : PacketCoder.decodeLegacy src = (.error error, rest)) : rest = src := by
  unfold PacketCoder.decodeLegacy at h
  rcases hframe : Lingo.FrameCodec.decode src with e | _ | ⟨frame, frameLen⟩
  · rw [hframe] at h
    exact (Prod.mk.inj h).2.symm
  · rw [hframe] at h
    cases h
  · rw [hframe] at h
    dsimp only at h
    split at h
    · cases h
    · split at h
      · exact (Prod.mk.inj h).2.symm
      · split at h <;> cases h

/-- **A call that fails takes a byte** exactly when no refused frame is in front. -/
theorem error_takes_iff {coder : PacketCoder} (hstreaming : coder.streamingMode = true)
    (src : Bytes) :
    (∀ error rest, coder.decode src = (.error error, rest) → rest.length < src.length) ↔
      ¬ RefusedPacket src ∧ ¬ RefusedLegacy src := by
  constructor
  · intro htakes
    constructor
    · rintro ⟨hstart, hlength, hheader⟩
      obtain ⟨tail, rfl⟩ : ∃ tail, src = 0xff :: 0x5a :: tail :=
        ⟨src.drop 2, by rw [← List.take_append_drop 2 src, hstart]; rfl⟩
      obtain ⟨error, herror⟩ := decodePacket_refused coder hlength hheader
      exact Nat.lt_irrefl _ (htakes error _ herror)
    · intro hrefused
      obtain ⟨y, tail, rfl⟩ : ∃ y tail, src = 0x55 :: y :: tail := by
        obtain ⟨hstart, hlength, -⟩ := hrefused
        match src, hstart, hlength with
        | x :: y :: tail, hstart, _ => exact ⟨y, tail, by rw [Option.some.inj hstart]⟩
      obtain ⟨error, rest, herror⟩ := (decodeLegacy_error_iff rfl (by simp)).mpr hrefused
      obtain rfl := decodeLegacy_error_rest herror
      exact Nat.lt_irrefl _ (htakes error _ herror)
  · rintro ⟨hpacket, hlegacy⟩ error rest hdecode
    have hsuffix := rewind_suffix src
    unfold PacketCoder.decode at hdecode
    rcases hrewind : PacketCoder.rewind src with ⟨_ | start, marked⟩
    · rw [hrewind] at hdecode
      cases hdecode
    rw [hrewind] at hdecode hsuffix
    obtain ⟨hiap2, hlegacyStart⟩ := rewind_start hrewind
    -- either something was dropped in front, or the marker is in front
    obtain hdropped | hkept := Nat.lt_or_ge marked.length src.length
    · refine Nat.lt_of_le_of_lt ?_ hdropped
      cases start with
      | legacy =>
        obtain rfl := decodeLegacy_error_rest hdecode
        exact Nat.le_refl _
      | iap2 =>
        have hrest := decodePacket_suffix coder marked
        rw [show coder.decodePacket marked = (.error error, rest) from hdecode] at hrest
        exact hrest.length_le
    · obtain rfl : marked = src := hsuffix.eq_of_length_le hkept
      cases start with
      | legacy =>
        obtain ⟨y, tail, rfl⟩ := hlegacyStart rfl
        exact absurd ((decodeLegacy_error_iff rfl (by simp)).mp ⟨error, rest, hdecode⟩) hlegacy
      | iap2 =>
        obtain ⟨tail, rfl⟩ := hiap2 rfl
        obtain hshorter | ⟨hlength, hheader⟩ := decodePacket_error hstreaming hdecode
        · exact hshorter
        · exact absurd ⟨rfl, hlength, hheader⟩ hpacket

/-! ## The stream in one piece -/

/-- The frames of a stream, past every failure that takes a byte. -/
def framesThrough (coder : PacketCoder) (src : Bytes) : List PacketOrDetect :=
  match coder.decode src with
  | (.ok none, _) => []
  | (.ok (some frame), rest) =>
    if _h : rest.length < src.length then frame :: framesThrough coder rest else [frame]
  | (.error _, rest) => if _h : rest.length < src.length then framesThrough coder rest else []
termination_by src.length

section Through

variable {coder : PacketCoder}

variable {rest src : Bytes}

theorem framesThrough_more (h : coder.decode src = (.ok none, rest)) :
    framesThrough coder src = [] := by
  rw [framesThrough, h]

theorem framesThrough_frame {frame : PacketOrDetect}
    (h : coder.decode src = (.ok (some frame), rest)) :
    framesThrough coder src = frame :: framesThrough coder rest := by
  have hconsumes := consumes_decode coder src
  rw [h] at hconsumes
  have hshorter : rest.length < src.length :=
    Nat.lt_of_lt_of_le hconsumes (rewind_length_le src)
  rw [framesThrough, h]
  dsimp only
  rw [dif_pos hshorter]

/-- A failure in front yields nothing, whether it takes a byte or not. -/
theorem framesThrough_error {error : PacketCoderError}
    (h : coder.decode src = (.error error, rest)) :
    framesThrough coder src = framesThrough coder rest := by
  by_cases hshorter : rest.length < src.length
  · rw [framesThrough, h]
    dsimp only
    rw [dif_pos hshorter]
  · have hsuffix := decode_suffix coder src
    rw [h] at hsuffix
    rw [show rest = src from hsuffix.eq_of_length_le (Nat.le_of_not_lt hshorter)]

/-- What decodes alike has the same frames. -/
theorem framesThrough_congr {other : Bytes} (h : coder.decode src = coder.decode other) :
    framesThrough coder src = framesThrough coder other := by
  rcases hdecode : coder.decode other with ⟨e | frame, rest⟩
  · rw [framesThrough_error hdecode, framesThrough_error (h.trans hdecode)]
  · cases frame with
    | none => rw [framesThrough_more hdecode, framesThrough_more (h.trans hdecode)]
    | some frame => rw [framesThrough_frame hdecode, framesThrough_frame (h.trans hdecode)]

/-- **The end of a read does not matter**: what a read delivers, and what is left of its buffer
with the rest of the stream, are the frames of the stream. -/
theorem framesThrough_reading (hstreaming : coder.streamingMode = true) (fuel : Nat)
    (src later : Bytes) :
    framesThrough coder (src ++ later) =
      (reading coder fuel src).frames
        ++ framesThrough coder ((reading coder fuel src).left ++ later) := by
  induction fuel generalizing src with
  | zero => rfl
  | succ fuel ih =>
    rw [reading]
    rcases hdecode : coder.decode src with ⟨e | frame, rest⟩
    · exact framesThrough_error (decode_append hstreaming hdecode (by simp) later)
    · cases frame with
      | none => exact framesThrough_congr (decode_more hdecode later)
      | some frame =>
        rw [framesThrough_frame (decode_append hstreaming hdecode (by simp) later), ih]
        rfl

/-- Where no frame is held, none comes. -/
theorem framesThrough_of_not_holds (h : ¬ HoldsFrame coder src) :
    framesThrough coder src = [] := by
  induction hlength : src.length using Nat.strongRecOn generalizing src with
  | _ n ih =>
    subst hlength
    rcases hdecode : coder.decode src with ⟨e | frame, rest⟩
    · by_cases hshorter : rest.length < src.length
      · rw [framesThrough_error hdecode]
        refine ih rest.length hshorter (fun hrest => h (.behind hdecode ?_)) rfl
        rwa [if_pos hshorter]
      · rw [framesThrough, hdecode]
        dsimp only
        rw [dif_neg hshorter]
    · cases frame with
      | none => exact framesThrough_more hdecode
      | some frame => exact absurd (.here hdecode) h

end Through

/-! ## One read, and runs of reads -/

/-- **A read recovers exactly when it is clean.** -/
theorem recovers_iff (hstreaming : s.coder.streamingMode = true) (buf : Bytes) :
    Recovers s buf ↔ Clean s buf := by
  constructor
  · rintro ⟨htakes, hleft⟩ call hcall
    obtain ⟨hpacket, hlegacy⟩ := (error_takes_iff hstreaming call).mp (htakes call hcall)
    refine ⟨hpacket, hlegacy, fun hsome error rest hdecode => ?_⟩
    obtain ⟨t, ht⟩ := Option.isSome_iff_exists.mp hsome
    have hrest : (readingOf s buf).left = rest := reading_error hcall hdecode
    rw [← hrest, ← (readFrameBuf_spec ht).2]
    exact hleft t ht
  · intro hclean
    constructor
    · intro call hcall
      obtain ⟨hpacket, hlegacy, -⟩ := hclean call hcall
      exact (error_takes_iff hstreaming call).mpr ⟨hpacket, hlegacy⟩
    · intro t ht
      rw [(readFrameBuf_spec ht).2]
      obtain ⟨call, hcall, hend⟩ := reading_ends (Nat.lt_succ_self (s.rxBuf ++ buf).length)
      obtain hmore | ⟨error, herror⟩ := hend
      · exact not_holdsFrame hmore
      · exact (hclean call hcall).2.2 (Option.isSome_iff_exists.mpr ⟨t, ht⟩) error _ herror

/-- **A clean run delivers the frames of the whole stream.** -/
theorem frames_of_run {chunks : List Bytes}
    (hstreaming : s.coder.streamingMode = true)
    (hclean : AllSteps AsyncClient.readFrameBuf Clean s chunks)
    (hrun : run AsyncClient.readFrameBuf s chunks = some t)
    (hempty : ¬ HoldsFrame s.coder s.rxBuf) :
    delivered s chunks = framesThrough s.coder (s.rxBuf ++ chunks.flatten) := by
  induction chunks generalizing s with
  | nil =>
    rw [List.flatten_nil, List.append_nil, framesThrough_of_not_holds hempty]
    rfl
  | cons buf chunks ih =>
    obtain ⟨u, hread, hrest⟩ := run_cons_eq_some.mp hrun
    obtain ⟨hcoder, hrxBuf⟩ := readFrameBuf_spec hread
    have hleft : ¬ HoldsFrame u.coder u.rxBuf := by
      rw [hcoder]
      exact ((recovers_iff hstreaming buf).mpr hclean.1).2 u hread
    have hlater := ih (by rw [hcoder]; exact hstreaming) (hclean.2 u hread) hrest hleft
    rw [delivered, hread, Option.elim_some, hlater, List.flatten_cons, ← List.append_assoc,
      framesThrough_reading hstreaming ((s.rxBuf ++ buf).length + 1), hcoder, hrxBuf]
    rfl

/-! ## A stream with a corrupted frame -/

theorem framesThrough_written {u u' : Unit} {frames : List PacketOrDetect}
    (hwritten : Written decodeStep u frames stream u') (later : Bytes) :
    framesThrough ⟨true⟩ (stream ++ later) = frames ++ framesThrough ⟨true⟩ later := by
  induction hwritten with
  | nil => rfl
  | cons first _ ih =>
    rename_i frame frames bytes more _
    have hdecode : PacketCoder.decode ⟨true⟩ (bytes ++ (more ++ later)) =
        (.ok (some frame), more ++ later) := by
      have hstep := first (more ++ later)
      unfold decodeStep at hstep
      split at hstep
      · rename_i heq
        obtain ⟨rfl, -, rfl⟩ := Outcome.item.inj hstep
        exact heq
      · cases hstep
      · cases hstep
    rw [List.append_assoc, framesThrough_frame hdecode, ih]
    rfl

/-- A byte that starts no marker is passed over. -/
theorem framesThrough_skip {coder : PacketCoder} {x : UInt8} (hlegacy : x ≠ 0x55)
    (hpacket : ¬(x = 0xff ∧ rest.head? = some 0x5a)) :
    framesThrough coder (x :: rest) = framesThrough coder rest := by
  cases rest with
  | nil =>
    have hone : coder.decode [x] = (.ok none, (PacketCoder.rewind [x]).2) := rfl
    have hnone : coder.decode [] = (.ok none, []) := rfl
    rw [framesThrough_more hone, framesThrough_more hnone]
  | cons y rest =>
    have hrewind : PacketCoder.rewind (x :: y :: rest) = PacketCoder.rewind (y :: rest) := by
      rw [PacketCoder.rewind, if_neg (by simpa using hpacket), if_neg hlegacy]
    refine framesThrough_congr ?_
    unfold PacketCoder.decode
    rw [hrewind]

/-- A header that parses stands behind its marker, in nine bytes. -/
theorem parse_ok {header : Header} (h : Header.parse src = .ok header) :
    iap2HeaderSize ≤ src.length ∧ ∃ tail, src = 0xff :: 0x5a :: tail := by
  unfold Header.parse at h
  split at h
  · rename_i d0 d1 d2 d3 d4 d5 d6 d7 d8 tail
    split at h
    · cases h
    · rename_i hstart
      rw [not_not] at hstart
      have hd : d0 = 0xff ∧ d1 = 0x5a := by
        have hnat := congrArg UInt16.toNat hstart
        have h0 := d0.toNat_lt
        have h1 := d1.toNat_lt
        simp only [fromBeBytes, iap2HeaderStart, UInt16.toNat_ofNat', UInt16.reduceToNat] at hnat
        constructor <;> apply UInt8.toNat_inj.mp <;> simp only [UInt8.reduceToNat] <;> omega
      rw [hd.1, hd.2]
      exact ⟨by simp [iap2HeaderSize], _, rfl⟩
  · cases h

/-- A packet with a right header is taken whole, whatever its payload. -/
theorem decode_front (coder : PacketCoder) {front : Bytes} {header : Header}
    (hparse : Header.parse front = .ok header) (hlength : header.length.toNat = front.length)
    (later : Bytes) :
    coder.decode (front ++ later) =
      (PacketCoder.decodePayload header (front.drop iap2HeaderSize), later) := by
  obtain ⟨hsize, tail, htail⟩ := parse_ok hparse
  have hrewind : PacketCoder.rewind (front ++ later) = (some .iap2, front ++ later) := by
    rw [htail]
    rfl
  unfold PacketCoder.decode PacketCoder.decodePacket
  rw [hrewind]
  dsimp only
  rw [if_neg (by rw [List.length_append]; omega), headerParse_append hsize, hparse]
  dsimp only
  rw [if_neg (by omega), if_neg (by rw [List.length_append]; omega), hlength, List.take_left,
    List.drop_left]

/-- **Absorbed bytes are passed**, whatever frame follows. -/
theorem framesThrough_absorbed {altered : Bytes} (h : Absorbed altered) :
    ∃ frames, ∀ later : Bytes, later.head? ≠ some 0x5a →
      framesThrough ⟨true⟩ (altered ++ later) = frames ++ framesThrough ⟨true⟩ later := by
  induction h with
  | nil => exact ⟨[], fun _ _ => rfl⟩
  | @skipped x rest hlegacy hpacket _ ih =>
    obtain ⟨frames, hframes⟩ := ih
    refine ⟨frames, fun later hlater => ?_⟩
    rw [List.cons_append, framesThrough_skip hlegacy, hframes later hlater]
    rintro ⟨hx, hhead⟩
    cases rest with
    | nil => exact hlater hhead
    | cons y rest => exact hpacket ⟨hx, hhead⟩
  | @packet front rest header hparse hlength _ ih =>
    obtain ⟨frames, hframes⟩ := ih
    cases hpayload : PacketCoder.decodePayload header (front.drop iap2HeaderSize) with
    | error e =>
      refine ⟨frames, fun later hlater => ?_⟩
      have hdecode := decode_front ⟨true⟩ hparse hlength (rest ++ later)
      rw [hpayload] at hdecode
      rw [List.append_assoc, framesThrough_error hdecode, hframes later hlater]
    | ok taken =>
      cases taken with
      | none => exact absurd hpayload (decodePayload_ne_none header _)
      | some frame =>
        refine ⟨frame :: frames, fun later hlater => ?_⟩
        have hdecode := decode_front ⟨true⟩ hparse hlength (rest ++ later)
        rw [hpayload] at hdecode
        rw [List.append_assoc, framesThrough_frame hdecode, hframes later hlater]
        rfl
  | @legacy body encoded rest hencode _ ih =>
    obtain ⟨frames, hframes⟩ := ih
    refine ⟨(if body = [0x00, 0xee] then .detect else .legacy body) :: frames,
      fun later hlater => ?_⟩
    have hdecode := decode_legacy hencode ⟨true⟩ (rest ++ later)
    rw [List.append_assoc, List.cons_append, framesThrough_frame hdecode, hframes later hlater]
    rfl

theorem decode_nil {coder : PacketCoder} : coder.decode [] = (.ok none, []) := rfl

/-- An encoded frame starts with the first byte of a marker or with a sync byte. -/
theorem encode_head {frame : PacketOrDetect} {encoded : Bytes}
    (h : PacketCoder.encode frame = .ok encoded) :
    ∃ x rest, encoded = x :: rest ∧ x ≠ 0x5a := by
  cases frame with
  | packet packet =>
    rw [encode_packet] at h
    obtain rfl := Except.ok.inj h
    exact ⟨0xff, _, rfl, by decide⟩
  | legacy body =>
    cases hencode : Lingo.FrameCodec.encode body with
    | error e =>
      simp only [PacketCoder.encode, hencode] at h
      cases h
    | ok bytes =>
      rw [encode_legacy hencode] at h
      obtain rfl := Except.ok.inj h
      obtain ⟨y, rest, rfl⟩ := encode_eq_cons hencode
      exact ⟨0x55, _, rfl, by decide⟩
  | detect =>
    obtain rfl := Except.ok.inj h
    exact ⟨0xff, _, rfl, by decide⟩

theorem encodeStream_head {frames : List (Nat × PacketOrDetect)}
    (h : encodeStream frames = .ok stream) : stream.head? ≠ some 0x5a := by
  cases frames with
  | nil =>
    obtain rfl := Except.ok.inj h
    simp
  | cons entry frames =>
    obtain ⟨padding, frame⟩ := entry
    rw [encodeStream] at h
    cases hencode : PacketCoder.encode frame with
    | error e =>
      rw [hencode] at h
      cases h
    | ok encoded =>
      cases hmore : encodeStream frames with
      | error e =>
        rw [hencode, hmore] at h
        cases h
      | ok more =>
        rw [hencode, hmore] at h
        obtain rfl := Except.ok.inj h
        cases padding with
        | zero =>
          obtain ⟨x, rest, rfl, hx⟩ := encode_head hencode
          simpa using hx
        | succ padding => simp [List.replicate_succ]

/-- The frames of a stream of encoded frames with a corrupted one, whose bytes are absorbed. -/
theorem framesThrough_corrupted {altered : Bytes} {after : List (Nat × PacketOrDetect)}
    (hcorrupted : Corrupted stream altered after) (habsorbed : Absorbed altered) :
    after.map Prod.snd <:+ framesThrough ⟨true⟩ stream := by
  obtain ⟨before, front, frame, original, back, hbefore, hfront, -, -, -, hafter, hback, rfl⟩ :=
    hcorrupted
  obtain ⟨front', hfront', hwritten⟩ := written_encodeStream before hbefore
  obtain rfl := Except.ok.inj (hfront.symm.trans hfront')
  obtain ⟨back', hback', hwrittenBack⟩ := written_encodeStream after hafter
  obtain rfl := Except.ok.inj (hback.symm.trans hback')
  obtain ⟨frames, hframes⟩ := framesThrough_absorbed habsorbed
  have hend : framesThrough ⟨true⟩ back = after.map Prod.snd := by
    have happend := framesThrough_written hwrittenBack []
    rw [List.append_nil, framesThrough_more decode_nil, List.append_nil] at happend
    exact happend
  rw [List.append_assoc, framesThrough_written hwritten, hframes back (encodeStream_head hback),
    hend, ← List.append_assoc]
  exact List.suffix_append _ _

/-- **What a corrupted frame costs.** The reads of a run recover exactly as long as they are clean,
and in a run of clean reads every frame behind a corrupted one is delivered, if the bytes of that
one are absorbed. -/
theorem corruption_costs_itself (link : LinkLayer) (chunks : List Bytes) :
    (AllSteps AsyncClient.readFrameBuf Recovers (.new link) chunks ↔
      AllSteps AsyncClient.readFrameBuf Clean (.new link) chunks) ∧
    (AllSteps AsyncClient.readFrameBuf Clean (.new link) chunks →
      ∀ altered after, (after ≠ [] → Absorbed altered) →
        FollowersDelivered (.new link) chunks altered after) := by
  refine ⟨?_, ?_⟩
  · exact allSteps_iff_of_invariant (fun s => s.coder = ⟨true⟩)
      (fun s buf hcoder => recovers_iff (by rw [hcoder]) buf)
      (fun s buf t hcoder _ h => (readFrameBuf_spec h).1.trans hcoder) rfl
  · intro hclean altered after habsorbed t hrun hcorrupted
    by_cases hafter : after = []
    · rw [hafter]
      exact List.nil_suffix
    · rw [frames_of_run rfl hclean hrun (not_holdsFrame decode_nil)]
      exact framesThrough_corrupted hcorrupted (habsorbed hafter)

/-- A client of an accessory. -/
def freshAccessory : AsyncClient :=
  .new (.withClockAndLspNegotiator false 0 (SimpleLSPNegotiator .bluetooth))

/-- A packet with a right header and a wrong payload checksum. -/
def droppedPacket : Bytes := [0xff, 0x5a, 0, 11, 0x40, 1, 1, 2, 0x58, 7, 7]

/-- The packet is dropped, and the DETECT that comes in the next chunk is delivered. -/
theorem dropped_packet_costs_itself :
    Corrupted [droppedPacket, PacketCoder.iap2Handshake].flatten droppedPacket [(0, .detect)] ∧
      [.detect] <:+ delivered freshAccessory [droppedPacket, PacketCoder.iap2Handshake] := by
  have hcorrupted :
      Corrupted [droppedPacket, PacketCoder.iap2Handshake].flatten droppedPacket [(0, .detect)] := by
    have hack : Packet.newAck 1 1 2 (some [7]) = some ⟨⟨11, .ACK, 1, 1, 2⟩, some [7]⟩ := by decide
    refine ⟨[], [], .packet ⟨⟨11, .ACK, 1, 1, 2⟩, some [7]⟩, droppedPacket.dropLast ++ [0xf9],
      PacketCoder.iap2Handshake, nofun, rfl, .ack hack, rfl, ⟨rfl, by decide, ?_⟩, ?_, rfl, rfl⟩
    · exact .inr (by decide)
    · intro entry hentry
      obtain rfl := List.mem_singleton.mp hentry
      exact .detect
  have habsorbed : Absorbed droppedPacket := by
    have hparse : Header.parse droppedPacket = .ok ⟨11, .ACK, 1, 1, 2⟩ := rfl
    have hpacket := Absorbed.packet hparse rfl .nil
    rwa [List.append_nil] at hpacket
  have hclean : AllSteps AsyncClient.readFrameBuf Clean freshAccessory
      [droppedPacket, PacketCoder.iap2Handshake] := by
    refine ⟨?_, fun t hread => ⟨?_, fun _ _ => trivial⟩⟩
    · intro call hcall
      obtain rfl := List.mem_singleton.mp hcall
      refine ⟨fun hpacket => ?_, fun hlegacy => ?_, fun _ error rest hdecode => ?_⟩
      · exact absurd (hpacket.2.2 _ rfl) (by decide)
      · exact absurd hlegacy.1 (by decide)
      · obtain rfl : [] = rest := (Prod.mk.inj hdecode).2
        exact not_holdsFrame decode_nil
    · obtain ⟨hcoder, hrxBuf⟩ := readFrameBuf_spec hread
      intro call hcall
      unfold readingOf at hcall
      rw [hcoder, hrxBuf] at hcall
      have hcalls : call ∈ [PacketCoder.iap2Handshake, []] := hcall
      simp only [List.mem_cons, List.not_mem_nil, or_false] at hcalls
      obtain rfl | rfl := hcalls
      · refine ⟨fun hpacket => absurd hpacket.1 (by decide), fun hlegacy => ?_, ?_⟩
        · exact absurd hlegacy.1 (by decide)
        · rw [hcoder]
          exact fun _ _ _ hdecode => nomatch hdecode
      · refine ⟨fun hpacket => absurd hpacket.1 (by decide), fun hlegacy => ?_, ?_⟩
        · exact absurd hlegacy.1 (by decide)
        · exact fun _ _ _ hdecode => nomatch hdecode
  have hdelivered := (corruption_costs_itself _ _).2 hclean droppedPacket [(0, .detect)]
    fun _ => habsorbed
  exact ⟨hcorrupted, hdelivered _ rfl hcorrupted⟩

/-- A packet with a wrong header checksum, and a DETECT in the same chunk. -/
def refusedPacket : Bytes :=
  [0xff, 0x5a, 0, 9, 0x40, 1, 1, 0, 0, 0xff, 0x55, 0x02, 0x00, 0xee, 0x10]

/-- A wrong header checksum fails again and again. -/
theorem refused_packet_stays :
    ¬ ∀ (link : LinkLayer) (chunks : List Bytes), CostsOnlyItself (.new link) chunks := by
  intro h
  have hfresh := h (.withClockAndLspNegotiator false 0 (SimpleLSPNegotiator .bluetooth))
    [refusedPacket]
  have htakes := hfresh.1.1.1 refusedPacket (List.mem_singleton_self _) _ refusedPacket rfl
  exact Nat.lt_irrefl _ htakes

/-! ## One wrong byte -/

theorem sum_toBytes (header : Header) : header.toBytes.sum = 0 := by
  unfold Header.toBytes
  rw [List.sum_append, iap2GenChecksum_eq, List.sum_singleton, add_neg_cancel]

theorem sum_payloadBytes (payload : Option Bytes) : (payloadBytes payload).sum = 0 := by
  cases payload with
  | none => rfl
  | some payload =>
    unfold payloadBytes
    rw [List.sum_append, iap2GenChecksumFast_eq, List.sum_singleton, add_neg_cancel]

theorem sum_set_ne {bytes : Bytes} {i : Nat} {wrong : UInt8} (hsum : bytes.sum = 0)
    (hi : i < bytes.length) (hwrong : bytes[i]? ≠ some wrong) : (bytes.set i wrong).sum ≠ 0 := by
  rw [List.getElem?_eq_getElem hi, ne_eq, Option.some.injEq] at hwrong
  rw [List.sum_set', hsum, dif_pos hi, zero_add]
  exact fun h => hwrong (neg_add_eq_zero.mp h)

theorem checks_fail {bytes : Bytes} (h : bytes.sum ≠ 0) :
    iap2CheckChecksum bytes = false ∧ iap2CheckChecksumFast bytes = false := by
  unfold iap2CheckChecksum iap2CheckChecksumFast
  rw [iap2GenChecksum_eq, iap2GenChecksumFast_eq, beq_eq_false_iff_ne]
  exact ⟨neg_ne_zero.mpr h, neg_ne_zero.mpr h⟩

/-- Refused by one of the two checksums. -/
inductive ChecksumRefused : Except PacketCoderError (Option PacketOrDetect) → Prop
  | header (expected actual : UInt8) :
    ChecksumRefused (.error (.headerChecksumInvalid expected actual))
  | payload (expected actual : UInt8) :
    ChecksumRefused (.error (.payloadChecksumInvalid expected actual))

theorem refused_header (coder : PacketCoder) {tail : Bytes} (hlength : tail.length = 7)
    (hsum : (0xff :: 0x5a :: tail).sum ≠ 0) (later : Bytes) :
    ChecksumRefused (coder.decode (0xff :: 0x5a :: tail ++ later)).1 := by
  have hcheck := (checks_fail hsum).1
  have hparse : ∃ expected actual, Header.parse (0xff :: 0x5a :: tail) =
      .error (.headerChecksumInvalid expected actual) := by
    rcases tail with _ | ⟨d2, _ | ⟨d3, _ | ⟨d4, _ | ⟨d5, _ | ⟨d6, _ | ⟨d7, _ | ⟨d8, _ | _⟩⟩⟩⟩⟩⟩⟩ <;>
      simp_all [Header.parse, fromBeBytes, iap2HeaderStart]
  obtain ⟨expected, actual, hparse⟩ := hparse
  have hsize : iap2HeaderSize ≤ (0xff :: 0x5a :: tail).length := by simp [hlength, iap2HeaderSize]
  have hrewind : PacketCoder.rewind (0xff :: 0x5a :: tail ++ later) =
      (some .iap2, 0xff :: 0x5a :: tail ++ later) := rfl
  unfold PacketCoder.decode PacketCoder.decodePacket
  rw [hrewind]
  dsimp only
  rw [if_neg (by rw [List.length_append]; omega), headerParse_append hsize, hparse]
  exact .header expected actual

theorem refused_payload (header : Header) {payload : Bytes} (hsum : payload.sum ≠ 0) :
    ChecksumRefused (PacketCoder.decodePayload header payload) := by
  have hcheck := (checks_fail hsum).2
  unfold PacketCoder.decodePayload
  rw [if_neg (by rintro h; exact hsum (by rw [List.isEmpty_iff.mp h]; rfl)),
    if_neg (by rintro rfl; exact hsum rfl), hcheck]
  exact .payload _ _

/-- **No wrong byte gets through**: with one byte of a packet behind the marker changed, wherever
it stands and whatever follows the packet, a checksum refuses it. -/
theorem wrong_byte_refused {packet : Packet} (hsealed : Sealed packet) {encoded : Bytes}
    (hencode : PacketCoder.encode (.packet packet) = .ok encoded) {i : Nat}
    (hi : i + 2 < encoded.length) (coder : PacketCoder) (wrong : UInt8) (later : Bytes) :
    ChecksumRefused (coder.decode (encoded.set (i + 2) wrong ++ later)).1 ↔
      encoded[i + 2]? ≠ some wrong := by
  obtain rfl := Except.ok.inj ((encode_packet packet).symm.trans hencode)
  have hsize := length_toBytes packet.header
  refine ⟨fun hrefused hsame => ?_, fun hwrong => ?_⟩
  · obtain ⟨hplace, hsame⟩ := List.getElem?_eq_some_iff.mp hsame
    rw [← hsame, List.set_getElem_self, decode_packet hsealed] at hrefused
    cases hrefused
  rw [List.set_append]
  by_cases hheader : i + 2 < packet.header.toBytes.length
  · rw [List.getElem?_append_left hheader] at hwrong
    have hsum := sum_set_ne (sum_toBytes packet.header) hheader hwrong
    rw [if_pos hheader, List.append_assoc]
    exact refused_header coder (by rw [List.length_set]; rfl) hsum _
  · rw [List.getElem?_append_right (Nat.le_of_not_lt hheader)] at hwrong
    rw [List.length_append] at hi
    have hsum := sum_set_ne (sum_payloadBytes packet.payload) (by omega) hwrong
    have hlength := hsealed.length
    rw [if_neg hheader, decode_front coder (headerParse_toBytes hsealed.control _) (by simp_all)]
    exact refused_payload packet.header hsum

/-- An acknowledgement with another number. -/
theorem wrong_ack_refused :
    ChecksumRefused (PacketCoder.decode ⟨true⟩
        ([0xff, 0x5a, 0, 9, 0x40, 1, 2, 0, 0x5b].set 6 3 ++ [])).1 ↔
      ([0xff, 0x5a, 0, 9, 0x40, 1, 2, 0, 0x5b] : Bytes)[6]? ≠ some 3 :=
  @wrong_byte_refused ⟨⟨9, .ACK, 1, 2, 0⟩, none⟩ ⟨rfl, rfl⟩ _ rfl 4 (by decide) ⟨true⟩ 3 []

end Catplay.Analysis.Client.Corruption
