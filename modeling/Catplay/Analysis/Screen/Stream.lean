import Catplay.Analysis.Screen.Reading

/-!
# The screen stream

A receiver in step with a sender reads the frames that are sent, in whatever pieces the stream comes
in, and both use the same nonces or the same stretch of the AES stream for them.
-/

set_option autoImplicit false

namespace Catplay.Analysis.Screen

open Catplay.Model.Hap Catplay.Model.Screen Catplay.Analysis.Hap Catplay.Library.StreamDecoder

/-! ## What the ciphers have used -/

/-- The nonce that the next video frame is sent under. -/
def writeNonce (codec : ScreenFrameCodec) : Option HomeKitChaChaNonce :=
  match codec.crypto with
  | some (.chacha _ _ _ counterTx) => some counterTx
  | _ => none

/-- The nonce that the next video frame is read under. -/
def readNonce (codec : ScreenFrameCodec) : Option HomeKitChaChaNonce :=
  match codec.crypto with
  | some (.chacha _ _ counterRx _) => some counterRx
  | _ => none

/-- How much of the AES stream has been written under. -/
def writePosition (codec : ScreenFrameCodec) : Option Nat :=
  match codec.crypto with
  | some (.aesCtr _ writeCipher) => some writeCipher.position
  | _ => none

/-- How much of the AES stream has been read under. -/
def readPosition (codec : ScreenFrameCodec) : Option Nat :=
  match codec.crypto with
  | some (.aesCtr readCipher _) => some readCipher.position
  | _ => none

def isVideo (frame : ScreenFrame) : Bool := frame.header.opcode = .videoFrame

/-- The count of the video frames. -/
def videoFrames (frames : List ScreenFrame) : Nat := frames.countP isVideo

/-- The bytes of the video frames. -/
def videoBytes (frames : List ScreenFrame) : Nat :=
  ((frames.filter isVideo).map (·.data.length)).sum

section Used

variable {sender receiver : ScreenFrameCodec}

theorem InStep.nonce_eq (h : InStep sender receiver) : readNonce receiver = writeNonce sender := by
  have hmatched := h.matched
  unfold readNonce writeNonce
  match hsend : sender.crypto, hread : receiver.crypto, hmatched with
  | some (.chacha ..), some (.chacha ..), ⟨_, hcounter, _⟩ => exact congrArg some hcounter.symm
  | some (.aesCtr ..), some (.aesCtr ..), _ => rfl
  | none, none, _ => rfl

theorem InStep.position_eq (h : InStep sender receiver) :
    readPosition receiver = writePosition sender := by
  have hmatched := h.matched
  unfold readPosition writePosition
  match hsend : sender.crypto, hread : receiver.crypto, hmatched with
  | some (.chacha ..), some (.chacha ..), _ => rfl
  | some (.aesCtr ..), some (.aesCtr ..), hsame =>
    exact congrArg some (congrArg Aes128Ctr.position (Eq.symm hsame))
  | none, none, _ => rfl

theorem videoFrames_cons (frame : ScreenFrame) (frames : List ScreenFrame) :
    videoFrames (frame :: frames) = videoFrames [frame] + videoFrames frames := by
  unfold videoFrames
  rw [← List.countP_append, List.singleton_append]

theorem videoBytes_cons (frame : ScreenFrame) (frames : List ScreenFrame) :
    videoBytes (frame :: frames) = videoBytes [frame] + videoBytes frames := by
  unfold videoBytes
  rw [← List.sum_append, ← List.map_append, ← List.filter_append, List.singleton_append]

/-- A frame that is no video frame leaves the sender as it is. -/
theorem sentBy_of_not_video {frame : ScreenFrame} (h : frame.header.opcode ≠ .videoFrame) :
    sentBy sender frame = sender ∧ videoFrames [frame] = 0 ∧ videoBytes [frame] = 0 := by
  have hnot : isVideo frame = false := decide_eq_false h
  refine ⟨?_, ?_, ?_⟩
  · unfold sentBy
    split
    · exact absurd ‹frame.header.opcode = .videoFrame› h
    · exact absurd ‹frame.header.opcode = .videoFrame› h
    · rfl
  · unfold videoFrames
    rw [List.countP_cons, hnot]
    rfl
  · unfold videoBytes
    rw [List.filter_cons, hnot]
    rfl

theorem sentBy_of_video {frame : ScreenFrame} (h : frame.header.opcode = .videoFrame) :
    videoFrames [frame] = 1 ∧ videoBytes [frame] = frame.data.length := by
  have hvideo : isVideo frame = true := decide_eq_true h
  constructor
  · unfold videoFrames
    rw [List.countP_cons, hvideo]
    rfl
  · unfold videoBytes
    rw [List.filter_cons, hvideo]
    rfl

/-- **One nonce for a video frame**, and none for the others. -/
theorem writeNonce_sentBy (sender : ScreenFrameCodec) (frame : ScreenFrame) :
    writeNonce (sentBy sender frame) =
      (writeNonce sender).map (· + .ofNat (videoFrames [frame])) := by
  by_cases hvideo : frame.header.opcode = .videoFrame
  · rw [(sentBy_of_video hvideo).1]
    obtain ⟨header, crypto, flags⟩ := sender
    unfold sentBy writeNonce
    rw [hvideo]
    rcases crypto with _ | ⟨_ | _⟩
    · rfl
    · rfl
    · rfl
  · obtain ⟨hsame, hnone, -⟩ := @sentBy_of_not_video sender frame hvideo
    rw [hsame, hnone]
    cases writeNonce sender with
    | none => rfl
    | some nonce => exact congrArg some (UInt64.add_zero nonce).symm

/-- **The AES stream moves on by the bytes of a video frame**, and stays for the others. -/
theorem writePosition_sentBy (sender : ScreenFrameCodec) (frame : ScreenFrame) :
    writePosition (sentBy sender frame) =
      (writePosition sender).map (· + videoBytes [frame]) := by
  by_cases hvideo : frame.header.opcode = .videoFrame
  · rw [(sentBy_of_video hvideo).2]
    obtain ⟨header, crypto, flags⟩ := sender
    unfold sentBy writePosition
    rw [hvideo]
    rcases crypto with _ | ⟨_ | _⟩
    · rfl
    · rfl
    · rfl
  · obtain ⟨hsame, -, hnone⟩ := @sentBy_of_not_video sender frame hvideo
    rw [hsame, hnone]
    cases writePosition sender with
    | none => rfl
    | some position => rfl

end Used

/-! ## The stream -/

section Stream

variable {backend : Backend} {sender sender' receiver : ScreenFrameCodec}
  {frames : List ScreenFrame} {stream : List UInt8}

/-- The sender behind some frames. -/
def sentAll (sender : ScreenFrameCodec) (frames : List ScreenFrame) : ScreenFrameCodec :=
  frames.foldl sentBy sender

/-- What frames are sent as. -/
def streamOf (backend : Backend) : ScreenFrameCodec → List ScreenFrame → List UInt8
  | _, [] => []
  | sender, frame :: frames =>
    (sentHeader sender.isChacha frame).write ++
      (sentBody backend sender frame ++ streamOf backend (sentBy sender frame) frames)

theorem encodeAll_eq (hstandard : Standard backend)
    (hfits : ∀ frame ∈ frames, Fits sender.isChacha frame) :
    ScreenFrameCodec.encodeAll backend sender frames =
      .ok (sentAll sender frames, streamOf backend sender frames) := by
  induction frames generalizing sender with
  | nil => rfl
  | cons frame frames ih =>
    have hencode := encode_eq_sent hstandard (hfits frame List.mem_cons_self)
    have hrest := @ih (sentBy sender frame) fun frame' hmem => by
      rw [isChacha_sentBy]
      exact hfits frame' (List.mem_cons_of_mem frame hmem)
    rw [ScreenFrameCodec.encodeAll, hencode]
    dsimp only
    rw [hrest]
    dsimp only
    rw [streamOf, List.append_assoc]
    rfl

theorem used_sentAll (sender : ScreenFrameCodec) (frames : List ScreenFrame) :
    writeNonce (sentAll sender frames) =
        (writeNonce sender).map (· + .ofNat (videoFrames frames)) ∧
      writePosition (sentAll sender frames) =
        (writePosition sender).map (· + videoBytes frames) := by
  induction frames generalizing sender with
  | nil =>
    constructor
    · cases hnonce : writeNonce sender with
      | none => exact hnonce
      | some nonce => exact hnonce.trans (congrArg some (UInt64.add_zero nonce).symm)
    · cases hposition : writePosition sender with
      | none => exact hposition
      | some position => exact hposition
  | cons frame frames ih =>
    obtain ⟨hnonces, hpositions⟩ := ih (sentBy sender frame)
    show writeNonce (sentAll (sentBy sender frame) frames) = _ ∧
      writePosition (sentAll (sentBy sender frame) frames) = _
    rw [hnonces, hpositions, writeNonce_sentBy, writePosition_sentBy,
      videoFrames_cons frame frames, videoBytes_cons frame frames, Option.map_map, Option.map_map, UInt64.ofNat_add]
    constructor
    · congr 1
      funext nonce
      exact UInt64.add_assoc nonce _ _
    · congr 1
      funext position
      exact Nat.add_assoc position _ _

/-- `Script backend last receiver buffer later items`: with `later` still to come, the receiver is
going to read `items` and then is in step with `last`. -/
inductive Script (backend : Backend) (last : ScreenFrameCodec) :
    ScreenFrameCodec → List UInt8 → List UInt8 → List ScreenFrame → Prop
  | between {sender receiver : ScreenFrameCodec} {frames : List ScreenFrame}
      {buffer later : List UInt8} (step : InStep sender receiver)
      (fits : ∀ frame ∈ frames, Fits sender.isChacha frame)
      (bytes : buffer ++ later = streamOf backend sender frames)
      (ends : sentAll sender frames = last) :
      Script backend last receiver buffer later (frames.map asRead)
  | underway {sender receiver : ScreenFrameCodec} {frame : ScreenFrame}
      {frames : List ScreenFrame} {buffer later body : List UInt8} {len : Nat}
      (progress : Underway backend sender frame receiver len body)
      (fits : ∀ frame' ∈ frame :: frames, Fits sender.isChacha frame')
      (seen : ScreenFrameHeader.size + len ≤ buffer.length)
      (room : len ≤ (sentBody backend sender frame).length)
      (bytes : buffer ++ later = (sentHeader sender.isChacha frame).write ++
        (body ++ streamOf backend (sentBy sender frame) frames))
      (ends : sentAll (sentBy sender frame) frames = last) :
      Script backend last receiver buffer later ((frame :: frames).map asRead)

theorem Script.append {last : ScreenFrameCodec} {buffer chunk later : List UInt8}
    {items : List ScreenFrame} (h : Script backend last receiver buffer (chunk ++ later) items) :
    Script backend last receiver (buffer ++ chunk) later items := by
  cases h with
  | between step fits bytes ends => exact .between step fits (by rwa [List.append_assoc]) ends
  | underway progress fits seen room bytes ends =>
    refine .underway progress fits ?_ room (by rwa [List.append_assoc]) ends
    rw [List.length_append]
    omega

/-- What a call does to a receiver that keeps to a script. -/
inductive Called (backend : Backend) (last receiver : ScreenFrameCodec)
    (buffer later : List UInt8) (items : List ScreenFrame) : Prop
  | more {receiver' : ScreenFrameCodec} {buffer' : List UInt8}
      (call : outcome backend receiver buffer = .more receiver' buffer')
      (script : Script backend last receiver' buffer' later items)
      (settled : later = [] → items = [] ∧ buffer' = [])
  | item {receiver' : ScreenFrameCodec} {rest : List UInt8} {frame : ScreenFrame}
      {others : List ScreenFrame} (call : outcome backend receiver buffer = .item frame receiver' rest)
      (first : items = frame :: others) (script : Script backend last receiver' rest later others)
      (shorter : rest.length < buffer.length)

variable (hstandard : Standard backend)

include hstandard

/-- **A call while a body is coming in.** -/
theorem called_underway {last : ScreenFrameCodec} {frame : ScreenFrame}
    {buffer later body : List UInt8} {len : Nat}
    (progress : Underway backend sender frame receiver len body)
    (fits : ∀ frame' ∈ frame :: frames, Fits sender.isChacha frame')
    (seen : ScreenFrameHeader.size + len ≤ buffer.length)
    (room : len ≤ (sentBody backend sender frame).length)
    (bytes : buffer ++ later = (sentHeader sender.isChacha frame).write ++
      (body ++ streamOf backend (sentBy sender frame) frames))
    (ends : sentAll (sentBy sender frame) frames = last) :
    Called backend last receiver buffer later ((frame :: frames).map asRead) := by
  have hfits := fits frame List.mem_cons_self
  have hlength := progress.length_body room
  have hheader := length_write (sentHeader sender.isChacha frame)
  have hbuffer : buffer = ((sentHeader sender.isChacha frame).write ++
      (body ++ streamOf backend (sentBy sender frame) frames)).take buffer.length := by
    rw [← bytes, List.take_left' rfl]
  have hlater : later = ((sentHeader sender.isChacha frame).write ++
      (body ++ streamOf backend (sentBy sender frame) frames)).drop buffer.length := by
    rw [← bytes, List.drop_left' rfl]
  set seenNow := buffer.length - ScreenFrameHeader.size with hseenNow
  have hcut : buffer.length = ScreenFrameHeader.size + seenNow := by omega
  rw [hcut, ← hheader, List.take_length_add_append] at hbuffer
  rw [hcut, ← hheader, List.drop_length_add_append] at hlater
  by_cases hpart : seenNow < body.length
  · -- some of the body is still to come
    have hshort : seenNow ≤ body.length := Nat.le_of_lt hpart
    rw [List.take_append_of_le_length hshort] at hbuffer
    rw [List.drop_append_of_le_length hshort] at hlater
    obtain ⟨receiver', body', hcall, hprogress, hdrop⟩ :=
      decode_part hstandard hfits progress (by omega : len ≤ seenNow) (by omega)
    have hlength' := hprogress.length_body (by omega)
    refine .more (by rw [hbuffer]; exact hcall) ?_ ?_
    · refine .underway hprogress fits ?_ (by omega) ?_ ends
      · rw [List.length_append, hheader, List.length_take]
        omega
      · rw [hlater, ← hdrop, List.append_assoc, ← List.append_assoc (body'.take seenNow),
          List.take_append_drop]
    · intro hnone
      rw [hnone] at hlater
      have hzero := congrArg List.length hlater
      rw [List.length_nil, List.length_append, List.length_drop] at hzero
      omega
  · have hwhole : body.length ≤ seenNow := Nat.le_of_not_lt hpart
    set stream := streamOf backend (sentBy sender frame) frames
    have hstart : (body ++ stream).take seenNow =
        body ++ stream.take (seenNow - body.length) := by
      rw [List.take_append, List.take_of_length_le hwhole]
    have hrest : (body ++ stream).drop seenNow = stream.drop (seenNow - body.length) := by
      rw [List.drop_append, List.drop_of_length_le hwhole, List.nil_append]
    rw [hstart] at hbuffer
    rw [hrest] at hlater
    obtain ⟨receiver', hcall, hstep⟩ := decode_whole hstandard hfits progress room
      (stream.take (seenNow - body.length))
    refine .item (by rw [hbuffer]; exact hcall) rfl ?_ ?_
    · refine .between hstep ?_ ?_ ends
      · intro frame' hmem
        rw [isChacha_sentBy]
        exact fits frame' (List.mem_cons_of_mem frame hmem)
      · rw [hlater, List.take_append_drop]
    · have hlong := congrArg List.length hbuffer
      rw [List.length_append, List.length_append, hheader] at hlong
      have hsize : ScreenFrameHeader.size = 128 := rfl
      omega

/-- **Any call.** -/
theorem called {last : ScreenFrameCodec} {buffer later : List UInt8} {items : List ScreenFrame}
    (h : Script backend last receiver buffer later items) :
    Called backend last receiver buffer later items := by
  cases h with
  | @underway sender receiver frame frames buffer later body len progress fits seen room bytes ends =>
    exact called_underway hstandard progress fits seen room bytes ends
  | @between sender receiver frames buffer later step fits bytes ends =>
    by_cases hshort : buffer.length < ScreenFrameHeader.size
    · -- the header is not there yet
      refine .more (outcome_short step.between hshort) (.between step fits bytes ends) ?_
      intro hnone
      rw [hnone, List.append_nil] at bytes
      cases frames with
      | nil => exact ⟨rfl, bytes⟩
      | cons frame frames =>
        have hlong := congrArg List.length bytes
        rw [streamOf, List.length_append, length_write] at hlong
        omega
    · cases frames with
      | nil =>
        have hzero := congrArg List.length bytes
        rw [List.length_append] at hzero
        have hsize : ScreenFrameHeader.size = 128 := rfl
        have hnothing : (streamOf backend sender []).length = 0 := rfl
        omega
      | cons frame frames =>
        rw [streamOf] at bytes
        have hfront : ∃ rest, buffer = (sentHeader sender.isChacha frame).write ++ rest := by
          refine ⟨buffer.drop ScreenFrameHeader.size, ?_⟩
          have htake := congrArg (List.take ScreenFrameHeader.size) bytes
          rw [take_header, List.take_append_of_le_length (Nat.le_of_not_lt hshort)] at htake
          rw [← htake, List.take_append_drop]
        obtain ⟨rest, hrest⟩ := hfront
        have hcalled := called_underway hstandard (underway_start step) fits
          (by rw [Nat.add_zero]; exact Nat.le_of_not_lt hshort) (Nat.zero_le _) bytes ends
        have hsame : outcome backend receiver buffer =
            outcome backend { receiver with
              header := some (sentHeader sender.isChacha frame, none, 0) } buffer := by
          rw [hrest]
          exact outcome_header step.between rest
        cases hcalled with
        | more call script settled => exact .more (hsame.trans call) script settled
        | item call first script shorter => exact .item (hsame.trans call) first script shorter

/-- **The receiver keeps to the script of the frames that were sent.** -/
theorem scripted (last : ScreenFrameCodec) :
    Scripted (outcome backend) (Script backend last) where
  append := Script.append
  item := by
    intro receiver buffer later items frame receiver' rest hscript hcall
    cases called hstandard hscript with
    | more call script settled =>
      rw [hcall] at call
      cases call
    | item call first script shorter =>
      rw [hcall] at call
      obtain ⟨rfl, rfl, rfl⟩ := Outcome.item.inj call
      exact ⟨_, first, script, shorter⟩
  more := by
    intro receiver buffer later items receiver' rest hscript hcall
    cases called hstandard hscript with
    | more call script settled =>
      rw [hcall] at call
      obtain ⟨rfl, rfl⟩ := Outcome.more.inj call
      exact script
    | item call first script shorter =>
      rw [hcall] at call
      cases call
  error := by
    intro receiver buffer later items e hscript hcall
    cases called hstandard hscript with
    | more call script settled =>
      rw [hcall] at call
      cases call
    | item call first script shorter =>
      rw [hcall] at call
      cases call
  settled := by
    intro receiver buffer items receiver' rest hscript hcall
    cases called hstandard hscript with
    | more call script settled =>
      rw [hcall] at call
      obtain ⟨rfl, rfl⟩ := Outcome.more.inj call
      exact settled rfl
    | item call first script shorter =>
      rw [hcall] at call
      cases call

end Stream

/-- The script is read to its end. -/
theorem ends_in_step {backend : Backend} {last receiver : ScreenFrameCodec}
    (h : Script backend last receiver [] [] []) : InStep last receiver := by
  generalize hitems : ([] : List ScreenFrame) = items at h
  generalize hbuffer : ([] : List UInt8) = buffer at h
  cases h with
  | @between sender receiver frames buffer later step fits bytes ends =>
    cases frames with
    | nil =>
      rw [← ends]
      exact step
    | cons frame frames => cases hitems
  | underway progress fits seen room bytes ends => cases hitems

/-- **The screen stream is read as it was sent.** However the stream comes in and however often the
decoder is called on the way, it yields the frames that were sent, as it does with the whole stream
in its buffer, and it stops in step with the sender. Both ends have used one nonce for each video
frame, or the bytes of the video frames of the AES stream, and nothing for the other frames. -/
theorem frames_read (backend : Backend) (hstandard : Standard backend)
    {sender receiver : ScreenFrameCodec} (hstep : InStep sender receiver)
    (frames : List ScreenFrame) (hfits : ∀ frame ∈ frames, Fits sender.isChacha frame) :
    ∃ sender' stream,
      ScreenFrameCodec.encodeAll backend sender frames = .ok (sender', stream) ∧
      writeNonce sender' = (writeNonce sender).map (· + .ofNat (videoFrames frames)) ∧
      writePosition sender' = (writePosition sender).map (· + videoBytes frames) ∧
      ∀ calls : List (Call UInt8), received calls = stream → ∃ receiver',
        finish (outcome backend) (run (outcome backend) receiver [] calls) =
          (frames.map asRead, .ok (receiver', [])) ∧
        (decodeAll (outcome backend) receiver stream).1 = frames.map asRead ∧
        InStep sender' receiver' ∧
        readNonce receiver' = (readNonce receiver).map (· + .ofNat (videoFrames frames)) ∧
        readPosition receiver' = (readPosition receiver).map (· + videoBytes frames) := by
  obtain ⟨hnonces, hpositions⟩ := used_sentAll sender frames
  have hscripted := scripted hstandard (sentAll sender frames)
  have hread : ∀ calls : List (Call UInt8), received calls = streamOf backend sender frames →
      ∃ receiver', finish (outcome backend) (run (outcome backend) receiver [] calls) =
        (frames.map asRead, .ok (receiver', [])) ∧ InStep (sentAll sender frames) receiver' := by
    intro calls hcalls
    have hscript : Script backend (sentAll sender frames) receiver [] (received calls)
        (frames.map asRead) := .between hstep hfits hcalls rfl
    obtain ⟨receiver', hfinish, hend⟩ := hscripted.finish_run hscript
    exact ⟨receiver', hfinish, ends_in_step hend⟩
  refine ⟨_, _, encodeAll_eq hstandard hfits, hnonces, hpositions, fun calls hcalls => ?_⟩
  obtain ⟨receiver', hfinish, hend⟩ := hread calls hcalls
  obtain ⟨whole, hwhole, -⟩ := hread [.append (streamOf backend sender frames)]
    (List.append_nil _)
  refine ⟨receiver', hfinish, congrArg Prod.fst hwhole, hend, ?_, ?_⟩
  · rw [hend.nonce_eq, hnonces, hstep.nonce_eq]
  · rw [hend.position_eq, hpositions, hstep.position_eq]

/-! ## Two codecs of one stream -/

/-- The codec of the server and the codec of the client start in step. -/
theorem inStep_chacha (new : Key → HomeKitCipher)
    (hnew : ∀ key, keyOf (new key) = key ∧ Idle (new key) ∧ Idle (new key).setPreferPolySkip ∧
      keyOf (new key).setPreferPolySkip = key)
    (readKey writeKey : Key) (server : Bool) (flags flags' : ScreenFrameCodecFlags) :
    InStep (ScreenFrameCodec.chachaWithFlags new readKey writeKey server flags)
      (ScreenFrameCodec.chachaWithFlags new readKey writeKey (!server) flags') := by
  refine ⟨rfl, ?_⟩
  cases server with
  | false =>
    obtain ⟨hkey, hidle, hidle', hkey'⟩ := hnew writeKey
    refine ⟨?_, rfl, ?_⟩
    · show keyOf (new writeKey) =
        keyOf (if flags'.preferPolySkip then (new writeKey).setPreferPolySkip else new writeKey)
      split
      · rw [hkey, hkey']
      · rfl
    · show Idle (if flags'.preferPolySkip then (new writeKey).setPreferPolySkip else new writeKey)
      split
      · exact hidle'
      · exact hidle
  | true =>
    obtain ⟨hkey, hidle, hidle', hkey'⟩ := hnew readKey
    refine ⟨?_, rfl, ?_⟩
    · show keyOf (new readKey) =
        keyOf (if flags'.preferPolySkip then (new readKey).setPreferPolySkip else new readKey)
      split
      · rw [hkey, hkey']
      · rfl
    · show Idle (if flags'.preferPolySkip then (new readKey).setPreferPolySkip else new readKey)
      split
      · exact hidle'
      · exact hidle

/-- ChaCha20-Poly1305 by the fast cipher, as a library would have it. -/
def reference (aesKeystream : (key iv : Vector UInt8 16) → Nat → UInt8) : Backend where
  sealInPlaceSeparateTag key nonce aad data :=
    let ciphertext := applyKeystreamAtOffset key nonce 0 data
    some (ciphertext, (HomeKitCipherFast.new key).computeTag ciphertext aad nonce)
  openInPlace key nonce aad dataAndTag :=
    let ciphertext := dataAndTag.take (dataAndTag.length - tagSize)
    let tag := (HomeKitCipherFast.new key).computeTag ciphertext aad nonce
    if dataAndTag.drop (dataAndTag.length - tagSize) = tag.toList then
      some (applyKeystreamAtOffset key nonce 0 ciphertext)
    else none
  aesKeystream

theorem standard_reference (aesKeystream : (key iv : Vector UInt8 16) → Nat → UInt8) :
    Standard (reference aesKeystream) where
  seals _ _ _ _ _ := rfl
  opens key nonce aad data _ := by
    have hlength : (wire key data aad nonce).length - tagSize = data.length := by
      rw [length_wire]
      rfl
    have hciphertext : (wire key data aad nonce).take data.length =
        (sealed key data aad nonce).1 := by
      rw [wire, take_withTag (Nat.le_refl _), List.take_of_length_le (Nat.le_of_eq length_sealed_fst)]
    have hplain := @decrypts key data aad nonce 0 data.length (Nat.le_refl _)
    rw [List.drop_zero, List.drop_zero, List.take_length,
      List.take_of_length_le (Nat.le_of_eq length_sealed_fst)] at hplain
    show (if (wire key data aad nonce).drop ((wire key data aad nonce).length - tagSize) = _ then
      some _ else none) = _
    rw [hlength, hciphertext, hplain, wire, drop_withTag]
    exact if_pos rfl

/-- A header without parameters. -/
def bareHeader (opcode : ScreenOpCode) : ScreenFrameHeader where
  bodySize := 0
  opcode
  smallParam := #v[0, 0, 0]
  params := .replicate 15 (.replicate 8 0)

/-- One end of a stream under the fast cipher, with both keys zero. -/
def freshCodec (server : Bool) : ScreenFrameCodec :=
  .chachaWithFlags (fun key => .fast (.new key)) (.replicate 32 0) (.replicate 32 0) server {}

theorem inStep_fresh : InStep (freshCodec true) (freshCodec false) :=
  inStep_chacha (fun key => .fast (.new key)) (fun _ => ⟨rfl, rfl, rfl, rfl⟩) _ _ true {} {}

/-- A video frame and a frame without a body. -/
theorem frames_read_fresh :
    ∃ sender' stream,
      ScreenFrameCodec.encodeAll (reference fun _ _ _ => 0) (freshCodec true)
        [⟨bareHeader .videoFrame, [1, 2, 3]⟩, ⟨bareHeader .keepAlive, []⟩] =
          .ok (sender', stream) ∧
      writeNonce sender' = some 1 ∧
      ∀ calls : List (Call UInt8), received calls = stream → ∃ receiver',
        finish (outcome (reference fun _ _ _ => 0))
            (run (outcome (reference fun _ _ _ => 0)) (freshCodec false) [] calls) =
          ([⟨{ bareHeader .videoFrame with bodySize := 3 }, [1, 2, 3]⟩,
            ⟨bareHeader .keepAlive, []⟩], .ok (receiver', [])) ∧
        readNonce receiver' = some 1 := by
  obtain ⟨sender', stream, hencode, hnonce, -, hread⟩ :=
    frames_read (reference fun _ _ _ => 0) (standard_reference _) inStep_fresh
      [⟨bareHeader .videoFrame, [1, 2, 3]⟩, ⟨bareHeader .keepAlive, []⟩] (by
        intro frame hmem
        rcases List.mem_cons.mp hmem with rfl | hmem
        · show 3 + 16 ≤ 4 * 1024 * 1024
          omega
        · rw [List.mem_singleton.mp hmem]
          exact Nat.zero_le _)
  refine ⟨sender', stream, hencode, hnonce, fun calls hcalls => ?_⟩
  obtain ⟨receiver', hfinish, -, -, hnonce', -⟩ := hread calls hcalls
  exact ⟨receiver', hfinish, hnonce'⟩

/-- A frame that is no video frame, one byte over the limit of the decoder. -/
def bigFrame : ScreenFrame :=
  ⟨bareHeader .keepAliveWithBody, List.replicate (ScreenFrameCodec.maxPayloadSize + 1) 0⟩

/-- A frame whose header asks for too much is refused as soon as its header is there. -/
theorem outcome_too_big {backend : Backend} {receiver : ScreenFrameCodec}
    (hbetween : receiver.header = none) {header : ScreenFrameHeader}
    (hbig : header.bodySize.toNat > ScreenFrameCodec.maxPayloadSize) (part : List UInt8) :
    outcome backend receiver (header.write ++ part) =
      .error (.payloadTooBig header.bodySize.toNat ScreenFrameCodec.maxPayloadSize) := by
  obtain ⟨_, crypto, flags⟩ := receiver
  rw [outcome_header hbetween, outcome_underway]
  unfold ScreenFrameCodec.decodeBody
  rw [if_pos hbig]

/-- It is sent, and the whole of it is refused. -/
theorem bigFrame_refused :
    bigFrame.header.opcode ≠ .videoFrame ∧
    InStep (freshCodec true) (freshCodec false) ∧
    (freshCodec true).encode (reference fun _ _ _ => 0) bigFrame =
      .ok (freshCodec true, (asRead bigFrame).write) ∧
    outcome (reference fun _ _ _ => 0) (freshCodec false) (asRead bigFrame).write =
      .error (.payloadTooBig (ScreenFrameCodec.maxPayloadSize + 1)
        ScreenFrameCodec.maxPayloadSize) := by
  have hnot : bigFrame.header.opcode ≠ .videoFrame := by decide
  have hlength : bigFrame.data.length = ScreenFrameCodec.maxPayloadSize + 1 :=
    List.length_replicate
  have hroom : ScreenFrameCodec.maxPayloadSize + 1 < 2 ^ 32 := by
    unfold ScreenFrameCodec.maxPayloadSize
    omega
  have hsize : (asRead bigFrame).header.bodySize.toNat = ScreenFrameCodec.maxPayloadSize + 1 := by
    unfold asRead
    rw [hlength]
    exact UInt32.toNat_ofNat_of_lt' hroom
  have hbig : (asRead bigFrame).header.bodySize.toNat > ScreenFrameCodec.maxPayloadSize := by
    rw [hsize]
    exact Nat.lt_succ_self _
  refine ⟨hnot, inStep_fresh, ?_, ?_⟩
  · exact (@sent_plain (reference fun _ _ _ => 0) _ _ fun h => hnot h.1).2.2
  · rw [ScreenFrame.write, outcome_too_big inStep_fresh.between hbig, hsize]

end Catplay.Analysis.Screen
