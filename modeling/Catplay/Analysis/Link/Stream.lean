import Catplay.Library.StreamDecoder
import Catplay.Analysis.Link.Packets

/-!
# Frames in a byte stream

The decoder in streaming mode is a lawful stream decoder (`lawful_decodeStep`): the frames
and the first error of a byte stream do not depend on the pieces it arrives in
(`decode_fragmented`). Encoded frames with zeros between them are decoded to themselves
(`decode_encodeStream`).
-/

set_option autoImplicit false

namespace Catplay.Analysis.Link

open Catplay.Library.StreamDecoder Catplay.Model.Link Catplay.Model

/-! ## Looking for a marker -/

/-- What `rewind` drops does not depend on what follows. -/
theorem rewind_append (src later : Bytes) :
    PacketCoder.rewind (src ++ later) = PacketCoder.rewind ((PacketCoder.rewind src).2 ++ later) := by
  fun_induction PacketCoder.rewind src with
  | case1 => rfl
  | case2 x =>
    by_cases hx : x = 0xff ∨ x = 0x55
    · rw [if_pos hx]
    · rw [if_neg hx]
      push Not at hx
      cases later with
      | nil => simp [PacketCoder.rewind, hx]
      | cons y later => simp [PacketCoder.rewind, hx]
  | case3 => rfl
  | case4 => rfl
  | case5 x y src hiap2 hlegacy ih =>
    rw [← ih]
    simp [PacketCoder.rewind, hiap2, hlegacy]

variable {rest src body encoded : Bytes} {result : Except PacketCoderError (Option PacketOrDetect)}
  {coder : PacketCoder}

/-- A marker stays the first one. -/
theorem rewind_append_of_start {start : FrameStart}
    (hrewind : PacketCoder.rewind src = (some start, rest)) (later : Bytes) :
    PacketCoder.rewind (src ++ later) = (some start, rest ++ later) := by
  fun_induction PacketCoder.rewind src with
  | case1 => cases hrewind
  | case2 x => cases hrewind
  | case3 x y src hiap2 =>
    cases hrewind
    simp [PacketCoder.rewind, hiap2]
  | case4 y src =>
    cases hrewind
    simp [PacketCoder.rewind]
  | case5 x y src hiap2 hlegacy ih =>
    rw [← ih hrewind]
    simp [PacketCoder.rewind, hiap2, hlegacy]

theorem rewind_length_le (src : Bytes) :
    (PacketCoder.rewind src).2.length ≤ src.length := by
  fun_induction PacketCoder.rewind src with
  | case1 => simp
  | case2 x => split <;> simp
  | case3 => simp
  | case4 => simp
  | case5 x y src hiap2 hlegacy ih =>
    exact Nat.le_trans ih (Nat.le_succ _)

/-- Zeros in front of anything are dropped. -/
theorem rewind_zeros (padding : Nat) (src : Bytes) :
    PacketCoder.rewind (List.replicate padding 0 ++ src) = PacketCoder.rewind src := by
  induction padding with
  | zero => rfl
  | succ padding ih =>
    rw [← ih, List.replicate_succ, List.cons_append]
    cases List.replicate padding 0 ++ src with
    | nil => rfl
    | cons y rest => simp [PacketCoder.rewind]

/-! ## What follows a frame does not matter -/

theorem decodeBody_append {headerLen bodyLen : Nat} {extended : Bool}
    {result : Except Lingo.LinkError (Option (Lingo.Frame × Nat))}
    (hdecode : Lingo.FrameCodec.decodeBody src headerLen bodyLen extended = result)
    (hresult : result ≠ .ok none) (later : Bytes) :
    Lingo.FrameCodec.decodeBody (src ++ later) headerLen bodyLen extended = result := by
  unfold Lingo.FrameCodec.decodeBody at hdecode ⊢
  dsimp only at hdecode ⊢
  by_cases hempty : bodyLen = 0
  · rw [if_pos hempty] at hdecode ⊢
    exact hdecode
  rw [if_neg hempty] at hdecode ⊢
  by_cases hshort : src.length < headerLen + bodyLen
  · rw [if_pos hshort] at hdecode
    exact absurd hdecode.symm hresult
  rw [if_neg hshort] at hdecode
  have hlater : ¬(src ++ later).length < headerLen + bodyLen := by
    rw [List.length_append]
    omega
  have hfirst : (src ++ later)[headerLen]? = src[headerLen]? :=
    List.getElem?_append_left (by omega)
  have hbody : ((src ++ later).drop headerLen).take bodyLen = (src.drop headerLen).take bodyLen := by
    rw [List.drop_append_of_le_length (by omega), List.take_append_of_le_length]
    rw [List.length_drop]
    omega
  rw [if_neg hlater, hfirst, hbody]
  exact hdecode

/-- An answer of the iAP1 codec other than a request for more bytes is final. -/
theorem frameCodec_decode_append {result : Except Lingo.LinkError (Option (Lingo.Frame × Nat))}
    (hdecode : Lingo.FrameCodec.decode src = result) (hresult : result ≠ .ok none) (later : Bytes) :
    Lingo.FrameCodec.decode (src ++ later) = result := by
  match src with
  | [] => exact absurd hdecode.symm hresult
  | [first] =>
    by_cases hfirst : first = 0x55
    · subst hfirst
      exact absurd hdecode.symm hresult
    · simp only [Lingo.FrameCodec.decode, ne_eq, hfirst, not_false_eq_true, if_true] at hdecode
      simpa only [Lingo.FrameCodec.decode, List.cons_append, ne_eq, hfirst, not_false_eq_true,
        if_true] using hdecode
  | first :: lengthByte :: tail =>
    by_cases hfirst : first = 0x55
    · by_cases hlength : lengthByte = 0
      · match tail with
        | [] =>
          subst hfirst hlength
          exact absurd hdecode.symm hresult
        | [hi] =>
          subst hfirst hlength
          exact absurd hdecode.symm hresult
        | hi :: lo :: tail =>
          simp only [Lingo.FrameCodec.decode, ne_eq, hfirst, not_true_eq_false, if_false,
            hlength, if_true, List.cons_append] at hdecode ⊢
          exact decodeBody_append hdecode hresult later
      · simp only [Lingo.FrameCodec.decode, ne_eq, hfirst, not_true_eq_false, if_false,
          hlength, List.cons_append] at hdecode ⊢
        exact decodeBody_append hdecode hresult later
    · simp only [Lingo.FrameCodec.decode, ne_eq, hfirst, not_false_eq_true, if_true] at hdecode
      simpa only [Lingo.FrameCodec.decode, List.cons_append, ne_eq, hfirst, not_false_eq_true,
        if_true] using hdecode

theorem decodeLegacy_append
    (hdecode : PacketCoder.decodeLegacy src = (result, rest)) (hresult : result ≠ .ok none)
    (later : Bytes) : PacketCoder.decodeLegacy (src ++ later) = (result, rest ++ later) := by
  unfold PacketCoder.decodeLegacy at hdecode ⊢
  rcases hframe : Lingo.FrameCodec.decode src with e | _ | ⟨frame, frameLen⟩
  · rw [hframe] at hdecode
    rw [frameCodec_decode_append hframe (by simp)]
    cases hdecode
    rfl
  · rw [hframe] at hdecode
    cases hdecode
    exact absurd rfl hresult
  · rw [hframe] at hdecode
    rw [frameCodec_decode_append hframe (by simp)]
    dsimp only at hdecode ⊢
    by_cases hshort : src.length < frameLen + 1
    · rw [if_pos hshort] at hdecode
      cases hdecode
      exact absurd rfl hresult
    rw [if_neg hshort] at hdecode
    have hlater : ¬(src ++ later).length < frameLen + 1 := by
      rw [List.length_append]
      omega
    rw [if_neg hlater, List.take_append_of_le_length (by omega),
      List.drop_append_of_le_length (by omega)]
    split at hdecode
    · cases hdecode
      rw [if_pos ‹_›]
    · rw [if_neg ‹_›]
      split at hdecode <;> cases hdecode
      · rw [if_pos ‹_›]
      · rw [if_neg ‹_›]

theorem headerParse_append (hsrc : iap2HeaderSize ≤ src.length) (later : Bytes) :
    Header.parse (src ++ later) = Header.parse src := by
  match src with
  | _ :: _ :: _ :: _ :: _ :: _ :: _ :: _ :: _ :: _ => rfl
  | [] | [_] | [_, _] | [_, _, _] | [_, _, _, _] | [_, _, _, _, _] | [_, _, _, _, _, _]
  | [_, _, _, _, _, _, _] | [_, _, _, _, _, _, _, _] =>
    exact absurd hsrc (by simp [iap2HeaderSize])

theorem decodePacket_append (hstreaming : coder.streamingMode = true)
    (hdecode : coder.decodePacket src = (result, rest)) (hresult : result ≠ .ok none)
    (later : Bytes) : coder.decodePacket (src ++ later) = (result, rest ++ later) := by
  unfold PacketCoder.decodePacket at hdecode ⊢
  simp only [hstreaming, Bool.not_true, Bool.false_eq_true, if_false] at hdecode ⊢
  by_cases hshort : src.length < iap2HeaderSize
  · rw [if_pos hshort] at hdecode
    cases hdecode
    exact absurd rfl hresult
  rw [if_neg hshort] at hdecode
  have hheader : ¬(src ++ later).length < iap2HeaderSize := by
    rw [List.length_append]
    omega
  rw [if_neg hheader, headerParse_append (by omega)]
  cases hparse : Header.parse src with
  | error e =>
    rw [hparse] at hdecode
    cases hdecode
    rfl
  | ok header =>
    rw [hparse] at hdecode
    dsimp only at hdecode ⊢
    by_cases hlength : header.length.toNat < iap2HeaderSize
    · rw [if_pos hlength] at hdecode ⊢
      cases hdecode
      rfl
    rw [if_neg hlength] at hdecode ⊢
    by_cases hpayload : src.length - iap2HeaderSize < header.length.toNat - iap2HeaderSize
    · rw [if_pos hpayload] at hdecode
      cases hdecode
      exact absurd rfl hresult
    rw [if_neg hpayload] at hdecode
    have hlater : ¬(src ++ later).length - iap2HeaderSize <
        header.length.toNat - iap2HeaderSize := by
      rw [List.length_append]
      omega
    rw [if_neg hlater, List.take_append_of_le_length (by omega),
      List.drop_append_of_le_length (by omega)]
    cases hdecode
    rfl

/-! ## The decoder is lawful -/

/-- One call of the decoder in streaming mode. -/
def decodeStep (_ : Unit) (src : Bytes) :
    Outcome Unit PacketOrDetect UInt8 PacketCoderError :=
  match PacketCoder.decode ⟨true⟩ src with
  | (.ok (some frame), rest) => .item frame () rest
  | (.ok none, rest) => .more () rest
  | (.error e, _) => .error e

/-- A request for more bytes, and a frame that was taken. -/
def Consumes (src : Bytes) : Except PacketCoderError (Option PacketOrDetect) × Bytes → Prop
  | (.ok none, rest) => rest = src
  | (.ok (some _), rest) => rest.length < src.length
  | (.error _, _) => True

theorem consumes_decodeLegacy (src : Bytes) : Consumes src (PacketCoder.decodeLegacy src) := by
  unfold PacketCoder.decodeLegacy
  rcases Lingo.FrameCodec.decode src with e | _ | ⟨frame, frameLen⟩
  · trivial
  · exact rfl
  · dsimp only
    have hdrop : ∀ h : ¬src.length < frameLen + 1,
        (src.drop (frameLen + 1)).length < src.length := by
      intro h
      rw [List.length_drop]
      omega
    split
    · exact rfl
    · split
      · trivial
      · split <;> exact hdrop ‹_›

theorem decodePayload_ne_none (header : Header) (fullPayload : Bytes) :
    PacketCoder.decodePayload header fullPayload ≠ .ok none := by
  unfold PacketCoder.decodePayload
  dsimp only
  split
  · simp
  · split
    · simp
    · split <;> simp

theorem consumes_decodePacket (coder : PacketCoder) (src : Bytes) :
    Consumes src (coder.decodePacket src) := by
  unfold PacketCoder.decodePacket
  split
  · split
    · trivial
    · exact rfl
  · cases Header.parse src with
    | error e => trivial
    | ok header =>
      dsimp only
      split
      · trivial
      · split
        · split
          · trivial
          · exact rfl
        · have hdrop : (src.drop header.length.toNat).length < src.length := by
            rw [List.length_drop]
            unfold iap2HeaderSize at *
            omega
          cases hpayload : PacketCoder.decodePayload header
              ((src.take header.length.toNat).drop iap2HeaderSize) with
          | error e => trivial
          | ok frame =>
            cases frame with
            | none => exact absurd hpayload (decodePayload_ne_none header _)
            | some frame => exact hdrop

theorem consumes_decode (coder : PacketCoder) (src : Bytes) :
    Consumes (PacketCoder.rewind src).2 (coder.decode src) := by
  unfold PacketCoder.decode
  rcases PacketCoder.rewind src with ⟨_ | start, rest⟩
  · exact rfl
  · cases start with
    | legacy => exact consumes_decodeLegacy rest
    | iap2 => exact consumes_decodePacket coder rest

/-- An answer other than a request for more bytes is final. -/
theorem decode_append (hstreaming : coder.streamingMode = true)
    (hdecode : coder.decode src = (result, rest)) (hresult : result ≠ .ok none)
    (later : Bytes) : coder.decode (src ++ later) = (result, rest ++ later) := by
  unfold PacketCoder.decode at hdecode ⊢
  rcases hrewind : PacketCoder.rewind src with ⟨_ | start, marked⟩
  · rw [hrewind] at hdecode
    cases hdecode
    exact absurd rfl hresult
  · rw [rewind_append_of_start hrewind]
    rw [hrewind] at hdecode
    cases start with
    | legacy => exact decodeLegacy_append hdecode hresult later
    | iap2 => exact decodePacket_append hstreaming hdecode hresult later

theorem decode_more (hdecode : coder.decode src = (.ok none, rest)) (later : Bytes) :
    coder.decode (src ++ later) = coder.decode (rest ++ later) := by
  have hrest : rest = (PacketCoder.rewind src).2 := by
    have hconsumes := consumes_decode coder src
    rw [hdecode] at hconsumes
    exact hconsumes
  unfold PacketCoder.decode
  rw [rewind_append src later, ← hrest]

/-- **The decoder does not look beyond what it takes.** -/
theorem lawful_decodeStep : Lawful decodeStep where
  item_shorter := by
    intro s src frame s' rest hstep
    have hconsumes := consumes_decode ⟨true⟩ src
    have hlength := rewind_length_le src
    unfold decodeStep at hstep
    rcases hdecode : PacketCoder.decode ⟨true⟩ src with ⟨e | _ | frame', rest'⟩ <;>
      rw [hdecode] at hstep hconsumes <;> cases hstep
    exact Nat.lt_of_lt_of_le hconsumes hlength
  item_append := by
    intro s src frame s' rest hstep later
    unfold decodeStep at hstep ⊢
    rcases hdecode : PacketCoder.decode ⟨true⟩ src with ⟨e | _ | frame', rest'⟩ <;>
      rw [hdecode] at hstep <;> cases hstep
    rw [decode_append rfl hdecode (by simp)]
  more_append := by
    intro s src s' rest hstep later
    unfold decodeStep at hstep ⊢
    rcases hdecode : PacketCoder.decode ⟨true⟩ src with ⟨e | _ | frame', rest'⟩ <;>
      rw [hdecode] at hstep <;> cases hstep
    rw [decode_more hdecode]
  error_append := by
    intro s src e hstep later
    unfold decodeStep at hstep ⊢
    rcases hdecode : PacketCoder.decode ⟨true⟩ src with ⟨e' | _ | frame', rest'⟩ <;>
      rw [hdecode] at hstep <;> cases hstep
    rw [decode_append rfl hdecode (by simp)]

/-- **Fragmentation invariance.** Feeding a byte string piece by piece yields the frames, the
first error and the bytes left over of the whole string. -/
theorem decode_fragmented (chunks : List Bytes) :
    feed decodeStep () [] chunks = decodeAll decodeStep () chunks.flatten := by
  have hsettled : decodeAll decodeStep () [] = ([], .ok ((), [])) := rfl
  rw [lawful_decodeStep.feed_eq chunks hsettled, List.nil_append]

/-! ## iAP1 frames -/

/-- The iAP1 codec reads back the body that it wrote. -/
theorem frameCodec_decode_encode
    (hencode : Lingo.FrameCodec.encode body = .ok encoded) (later : Bytes) :
    Lingo.FrameCodec.decode (encoded ++ later) = .ok (some (⟨body⟩, encoded.length)) := by
  unfold Lingo.FrameCodec.encode at hencode
  by_cases hempty : body.isEmpty
  · rw [if_pos hempty] at hencode
    cases hencode
  rw [if_neg hempty] at hencode
  by_cases hcommand : body.length < Lingo.FrameCodec.minBodyLen body.head?
  · rw [if_pos hcommand] at hencode
    cases hencode
  rw [if_neg hcommand] at hencode
  by_cases hlong : body.length > 65535
  · rw [if_pos hlong] at hencode
    cases hencode
  rw [if_neg hlong] at hencode
  have hpositive : 0 < body.length := by
    apply List.length_pos_iff.mpr
    rintro rfl
    exact hempty rfl
  have hbodyOf : ∀ (header : Bytes) (extended : Bool),
      (extended = true → 255 < body.length) →
      Lingo.FrameCodec.decodeBody (header ++ body ++ later) header.length body.length extended =
        .ok (some (⟨body⟩, (header ++ body).length)) := by
    intro header extended hextended
    have hfirst : (header ++ body ++ later)[header.length]? = body.head? := by
      rw [List.append_assoc, List.getElem?_append_right (Nat.le_refl _), Nat.sub_self,
        List.getElem?_append_left hpositive, List.head?_eq_getElem?]
    unfold Lingo.FrameCodec.decodeBody
    dsimp only
    rw [if_neg (by omega), if_neg (by simp only [List.length_append]; omega), if_neg, hfirst,
      if_neg hcommand, List.append_assoc, List.drop_left, List.take_left, List.length_append]
    rintro ⟨hext, hle⟩
    have hgt := hextended hext
    omega
  by_cases hshort : body.length ≤ 255
  · rw [if_pos hshort] at hencode
    cases hencode
    have hlength : (UInt8.ofNat body.length).toNat = body.length := by
      rw [UInt8.toNat_ofNat']
      omega
    have hbyte : UInt8.ofNat body.length ≠ 0 := by
      intro h
      rw [h] at hlength
      change 0 = body.length at hlength
      omega
    have hdecode := hbodyOf [0x55, .ofNat body.length] false (by simp)
    simp only [List.cons_append, List.nil_append] at hdecode ⊢
    simp only [Lingo.FrameCodec.decode, ne_eq, not_true_eq_false, if_false, hbyte, hlength]
    exact hdecode
  · rw [if_neg hshort] at hencode
    cases hencode
    have hlength : (UInt8.ofNat (body.length / 256)).toNat * 256 +
        (UInt8.ofNat (body.length % 256)).toNat = body.length := by
      rw [UInt8.toNat_ofNat', UInt8.toNat_ofNat']
      omega
    have hdecode := hbodyOf [0x55, 0, .ofNat (body.length / 256), .ofNat (body.length % 256)] true
      (by intro _; omega)
    simp only [List.cons_append, List.nil_append] at hdecode ⊢
    simp only [Lingo.FrameCodec.decode, ne_eq, not_true_eq_false, if_false, if_true, hlength]
    exact hdecode

/-- An iAP1 frame with its checksum is the detect sequence or a legacy frame. -/
theorem decodeLegacy_encode (hencode : Lingo.FrameCodec.encode body = .ok encoded)
    (hencoded : 1 ≤ encoded.length) (later : Bytes) :
    PacketCoder.decodeLegacy (encoded ++ iap2GenChecksumFast (encoded.drop 1) :: later) =
      (.ok (some (if body = [0x00, 0xee] then .detect else .legacy body)), later) := by
  have hsplit : encoded ++ iap2GenChecksumFast (encoded.drop 1) :: later =
      encoded ++ [iap2GenChecksumFast (encoded.drop 1)] ++ later := by
    simp
  have htake : ((encoded ++ [iap2GenChecksumFast (encoded.drop 1)] ++ later).take
      (encoded.length + 1)).drop 1 =
        encoded.drop 1 ++ [iap2GenChecksumFast (encoded.drop 1)] := by
    rw [List.take_left' (by simp), List.drop_append_of_le_length hencoded]
  have hdrop : (encoded ++ [iap2GenChecksumFast (encoded.drop 1)] ++ later).drop
      (encoded.length + 1) = later :=
    List.drop_left' (by simp)
  unfold PacketCoder.decodeLegacy
  rw [frameCodec_decode_encode hencode, hsplit]
  dsimp only
  rw [if_neg (by simp), htake, iap2CheckChecksumFast_append, hdrop]
  simp only [Bool.not_true, Bool.false_eq_true, if_false]
  by_cases hbody : body = [0x00, 0xee]
  · rw [if_pos hbody, if_pos hbody]
  · rw [if_neg hbody, if_neg hbody]

/-- A marker is written first. -/
theorem encode_eq_cons (hencode : Lingo.FrameCodec.encode body = .ok encoded) :
    ∃ y rest, encoded = 0x55 :: y :: rest := by
  unfold Lingo.FrameCodec.encode at hencode
  split at hencode
  · cases hencode
  · split at hencode
    · cases hencode
    · split at hencode
      · cases hencode
      · split at hencode <;> cases hencode
        · exact ⟨_, _, rfl⟩
        · exact ⟨_, _, rfl⟩

theorem decode_legacy (hencode : Lingo.FrameCodec.encode body = .ok encoded) (coder : PacketCoder)
    (later : Bytes) :
    coder.decode (encoded ++ iap2GenChecksumFast (encoded.drop 1) :: later) =
      (.ok (some (if body = [0x00, 0xee] then .detect else .legacy body)), later) := by
  obtain ⟨y, rest, hcons⟩ := encode_eq_cons hencode
  have hrewind : PacketCoder.rewind
      (encoded ++ iap2GenChecksumFast (encoded.drop 1) :: later) =
        (some .legacy, encoded ++ iap2GenChecksumFast (encoded.drop 1) :: later) := by
    rw [hcons]
    simp [PacketCoder.rewind]
  unfold PacketCoder.decode
  rw [hrewind]
  exact decodeLegacy_encode hencode (by simp [hcons]) later

/-! ## iAP2 packets -/

/-- The headers that come back from their bytes. -/
def Truncated (control : LinkControl) : Prop :=
  LinkControl.fromBitsTruncate control.bits = control

theorem truncated_syn : Truncated .SYN := by
  unfold Truncated
  decide

theorem truncated_synAck : Truncated (LinkControl.SYN.union .ACK) := by
  unfold Truncated
  decide

theorem truncated_ack : Truncated .ACK := by
  unfold Truncated
  decide

theorem truncated_eak : Truncated (LinkControl.ACK.union .EAK) := by
  unfold Truncated
  decide

theorem headerParse_toBytes {header : Header} (hcontrol : Truncated header.control)
    (later : Bytes) : Header.parse (header.toBytes ++ later) = .ok header := by
  have hcheck := iap2CheckChecksum_append (toBeBytes iap2HeaderStart ++ toBeBytes header.length ++
    [header.control.bits, header.seq, header.ack, header.sessionId])
  have hstart : fromBeBytes (.ofNat (iap2HeaderStart.toNat / 256))
      (.ofNat (iap2HeaderStart.toNat % 256)) = iap2HeaderStart :=
    LSPPayload.fromBeBytes_toBeBytes iap2HeaderStart
  have hlength := LSPPayload.fromBeBytes_toBeBytes header.length
  unfold Truncated at hcontrol
  simp only [toBeBytes, List.cons_append, List.nil_append] at hcheck
  simp only [Header.toBytes, toBeBytes, List.cons_append, List.nil_append, Header.parse, hstart,
    hlength, hcheck, hcontrol, ne_eq, not_true_eq_false, Bool.not_true, Bool.false_eq_true,
    if_false]

theorem length_toBytes (header : Header) : header.toBytes.length = iap2HeaderSize := rfl

/-- The bytes behind the header of a packet. -/
def payloadBytes : Option Bytes → Bytes
  | some payload => payload ++ [iap2GenChecksumFast payload]
  | none => []

theorem decodePayload_payloadBytes (header : Header) (payload : Option Bytes) :
    PacketCoder.decodePayload header (payloadBytes payload) =
      .ok (some (.packet ⟨header, payload⟩)) := by
  cases payload with
  | none => rfl
  | some payload =>
    unfold payloadBytes PacketCoder.decodePayload
    dsimp only
    rw [if_neg (by simp)]
    by_cases hempty : payload = []
    · subst hempty
      rfl
    · rw [if_neg, iap2CheckChecksumFast_append, List.dropLast_concat]
      · rfl
      · intro h
        apply hempty
        have hlength := congrArg List.length h
        simp only [List.length_append, List.length_singleton] at hlength
        exact List.length_eq_zero_iff.mp (by omega)

/-- A packet with the length that it has and control bits that have a name. -/
structure Sealed (packet : Packet) : Prop where
  length : packet.header.length.toNat = iap2HeaderSize + (payloadBytes packet.payload).length
  control : Truncated packet.header.control

theorem sealed_fixLength {packet fixed : Packet} (hfix : packet.fixLength = some fixed)
    (hcontrol : Truncated packet.header.control) : Sealed fixed := by
  unfold Packet.fixLength at hfix
  cases hpayload : packet.payload with
  | none =>
    rw [hpayload] at hfix
    cases hfix
    exact ⟨rfl, hcontrol⟩
  | some payload =>
    rw [hpayload] at hfix
    dsimp only at hfix
    split at hfix
    · cases hfix
    · cases hfix
      refine ⟨?_, hcontrol⟩
      dsimp only
      simp only [payloadBytes, List.length_append, List.length_singleton, iap2HeaderSize,
        UInt16.toNat_add, UInt16.toNat_ofNat', UInt16.reduceToNat]
      omega

theorem decode_packet {packet : Packet} (hsealed : Sealed packet) (coder : PacketCoder)
    (later : Bytes) :
    coder.decode (packet.header.toBytes ++ payloadBytes packet.payload ++ later) =
      (.ok (some (.packet packet)), later) := by
  obtain ⟨header, payload⟩ := packet
  obtain ⟨hlength, hcontrol⟩ := hsealed
  dsimp only at hlength hcontrol ⊢
  have hrewind : PacketCoder.rewind (header.toBytes ++ payloadBytes payload ++ later) =
      (some .iap2, header.toBytes ++ payloadBytes payload ++ later) := rfl
  have hsize := length_toBytes header
  have hbody : (header.toBytes ++ payloadBytes payload ++ later).take header.length.toNat =
      header.toBytes ++ payloadBytes payload :=
    List.take_left' (by rw [List.length_append, hsize, hlength])
  have hrest : (header.toBytes ++ payloadBytes payload ++ later).drop header.length.toNat =
      later :=
    List.drop_left' (by rw [List.length_append, hsize, hlength])
  unfold PacketCoder.decode PacketCoder.decodePacket
  rw [hrewind]
  dsimp only
  rw [if_neg (by simp only [List.length_append]; omega), List.append_assoc,
    headerParse_toBytes hcontrol, ← List.append_assoc]
  dsimp only
  rw [if_neg (by omega), if_neg (by simp only [List.length_append]; omega), hbody, hrest,
    List.drop_left' hsize, decodePayload_payloadBytes]

/-! ## Encoded frames -/

/-- The frames that the encoder is used with. -/
inductive Encodable : PacketOrDetect → Prop
  | detect : Encodable .detect
  | syn {ownSeq : ModSeq8} {lsp : LSPPayload} {packet : Packet}
      (hnew : Packet.newSyn ownSeq lsp = some packet) : Encodable (.packet packet)
  | synAck {ownSeq peerSeq : ModSeq8} {lsp : LSPPayload} {packet : Packet}
      (hnew : Packet.newSynAck ownSeq peerSeq lsp = some packet) : Encodable (.packet packet)
  | ack {ownSeq peerSeq : ModSeq8} {sessionId : UInt8} {payload : Option Bytes} {packet : Packet}
      (hnew : Packet.newAck ownSeq peerSeq sessionId payload = some packet) :
      Encodable (.packet packet)
  | eak {ownSeq peerSeq : ModSeq8} {sessionId : UInt8} {payload : Bytes} {packet : Packet}
      (hnew : Packet.newEak ownSeq peerSeq sessionId payload = some packet) :
      Encodable (.packet packet)
  | legacy {body encoded : Bytes} (hencode : Lingo.FrameCodec.encode body = .ok encoded)
      (hbody : body ≠ [0x00, 0xee]) : Encodable (.legacy body)

theorem encode_packet (packet : Packet) :
    PacketCoder.encode (.packet packet) =
      .ok (packet.header.toBytes ++ payloadBytes packet.payload) := by
  unfold PacketCoder.encode
  cases hpayload : packet.payload with
  | none => simp [payloadBytes, hpayload]
  | some payload => simp [payloadBytes, hpayload]

theorem encode_legacy (hencode : Lingo.FrameCodec.encode body = .ok encoded) :
    PacketCoder.encode (.legacy body) =
      .ok (encoded ++ [iap2GenChecksumFast (encoded.drop 1)]) := by
  unfold PacketCoder.encode
  dsimp only
  rw [hencode]

/-- An encodable frame has bytes, and they are decoded to it whatever follows. -/
theorem decode_encode {frame : PacketOrDetect} (hframe : Encodable frame) :
    ∃ encoded, PacketCoder.encode frame = .ok encoded ∧
      ∀ (coder : PacketCoder) (later : Bytes),
        coder.decode (encoded ++ later) = (.ok (some frame), later) := by
  have hpacket : ∀ packet : Packet, Sealed packet →
      ∃ encoded, PacketCoder.encode (.packet packet) = .ok encoded ∧
        ∀ (coder : PacketCoder) (later : Bytes),
          coder.decode (encoded ++ later) = (.ok (some (.packet packet)), later) := by
    intro packet hsealed
    exact ⟨_, encode_packet packet, decode_packet hsealed⟩
  cases hframe with
  | detect =>
    refine ⟨_, rfl, ?_⟩
    intro coder later
    have hencode : Lingo.FrameCodec.encode [0x00, 0xee] = .ok [0x55, 0x02, 0x00, 0xee] := rfl
    have hdecode := decode_legacy hencode coder later
    rw [if_pos rfl] at hdecode
    -- the sync byte in front is skipped
    exact hdecode
  | syn hnew => exact hpacket _ (sealed_fixLength hnew truncated_syn)
  | synAck hnew => exact hpacket _ (sealed_fixLength hnew truncated_synAck)
  | ack hnew => exact hpacket _ (sealed_fixLength hnew truncated_ack)
  | eak hnew => exact hpacket _ (sealed_fixLength hnew truncated_eak)
  | legacy hencode hbody =>
    refine ⟨_, encode_legacy hencode, ?_⟩
    intro coder later
    have hdecode := decode_legacy hencode coder later
    rw [if_neg hbody] at hdecode
    rw [List.append_assoc]
    exact hdecode

/-- Frames encoded one after another, each behind a number of zeros. -/
def encodeStream : List (Nat × PacketOrDetect) → Except PacketCoderError Bytes
  | [] => .ok []
  | (padding, frame) :: frames => do
    let encoded ← PacketCoder.encode frame
    let more ← encodeStream frames
    return List.replicate padding 0 ++ encoded ++ more

theorem decode_zeros (coder : PacketCoder) (padding : Nat) (src : Bytes) :
    coder.decode (List.replicate padding 0 ++ src) = coder.decode src := by
  unfold PacketCoder.decode
  rw [rewind_zeros]

theorem written_encodeStream (frames : List (Nat × PacketOrDetect))
    (hframes : ∀ entry ∈ frames, Encodable entry.2) :
    ∃ stream, encodeStream frames = .ok stream ∧
      Written decodeStep () (frames.map Prod.snd) stream () := by
  induction frames with
  | nil => exact ⟨[], rfl, .nil ()⟩
  | cons entry frames ih =>
    obtain ⟨padding, frame⟩ := entry
    obtain ⟨more, hmore, hwritten⟩ := ih fun e he => hframes e (List.mem_cons_of_mem _ he)
    obtain ⟨encoded, hencoded, hdecode⟩ := decode_encode (hframes _ List.mem_cons_self)
    refine ⟨List.replicate padding 0 ++ encoded ++ more, ?_, .cons ?_ hwritten⟩
    · simp only [encodeStream, hencoded, hmore]
      rfl
    · intro later
      unfold decodeStep
      rw [List.append_assoc, decode_zeros, hdecode]

/-- **Round trip.** A list of encodable frames, with zeros in front of, between and behind them,
is decoded to the same list, and every byte is consumed. -/
theorem decode_encodeStream (frames : List (Nat × PacketOrDetect))
    (hframes : ∀ entry ∈ frames, Encodable entry.2) (padding : Nat) :
    ∃ stream, encodeStream frames = .ok stream ∧
      decodeAll decodeStep () (stream ++ List.replicate padding 0) =
        (frames.map Prod.snd, .ok ((), [])) := by
  obtain ⟨stream, hstream, hwritten⟩ := written_encodeStream frames hframes
  refine ⟨stream, hstream, ?_⟩
  have hzeros : decodeStep () (List.replicate padding 0) = .more () [] := by
    have hdecode := decode_zeros ⟨true⟩ padding []
    rw [List.append_nil] at hdecode
    unfold decodeStep
    rw [hdecode]
    rfl
  rw [lawful_decodeStep.decodeAll_written hwritten, lawful_decodeStep.decodeAll_eq, hzeros]
  simp [prepend]

/-- A detect sequence, an acknowledgement with an empty payload and a legacy frame. -/
theorem decode_encodeStream_mixed :
    ∃ stream, encodeStream [(1, .detect), (2, .packet ⟨⟨10, .ACK, 7, 6, 2⟩, some []⟩),
        (0, .legacy [3, 4])] = .ok stream ∧
      decodeAll decodeStep () (stream ++ List.replicate 3 0) =
        ([.detect, .packet ⟨⟨10, .ACK, 7, 6, 2⟩, some []⟩, .legacy [3, 4]], .ok ((), [])) := by
  have hack : Packet.newAck 7 6 2 (some []) = some ⟨⟨10, .ACK, 7, 6, 2⟩, some []⟩ := by decide
  have hlegacy : Lingo.FrameCodec.encode [3, 4] = .ok [0x55, 2, 3, 4] := rfl
  apply decode_encodeStream [(1, .detect), (2, .packet ⟨⟨10, .ACK, 7, 6, 2⟩, some []⟩),
    (0, .legacy [3, 4])]
  intro entry hentry
  simp only [List.mem_cons, List.not_mem_nil, or_false] at hentry
  rcases hentry with rfl | rfl | rfl
  · exact .detect
  · exact .ack hack
  · exact .legacy hlegacy (by decide)

end Catplay.Analysis.Link
