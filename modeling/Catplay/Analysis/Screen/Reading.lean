import Catplay.Analysis.Screen.Sending

/-!
# Frames while they are read

A codec that follows a sender reads its frames, each with any part of its body at a time. The body
that is still coming in is partly decrypted (`Underway`), and what one call does to it is the same
for every part (`decode_part`, `decode_whole`).
-/

set_option autoImplicit false

namespace Catplay.Analysis.Screen

open Catplay.Model.Hap Catplay.Model.Screen Catplay.Analysis.Hap Catplay.Library.Keystream

/-- The ciphers of the two ends are keyed alike and stand at the same nonce or position. -/
def Matched : Option ScreenFrameCodecCrypto → Option ScreenFrameCodecCrypto → Prop
  | some (.chacha _ writeCipher _ counterTx), some (.chacha readCipher _ counterRx _) =>
    keyOf writeCipher = keyOf readCipher ∧ counterTx = counterRx ∧ Idle readCipher
  | some (.aesCtr _ writeCipher), some (.aesCtr readCipher _) => writeCipher = readCipher
  | none, none => True
  | _, _ => False

/-- **The receiver is where the sender is**, between two frames. -/
structure InStep (sender receiver : ScreenFrameCodec) : Prop where
  between : receiver.header = none
  matched : Matched sender.crypto receiver.crypto

/-- `Underway backend sender frame receiver len body`: the receiver has the header of the frame and
has seen `len` bytes of its body, which now is `body`, with the bytes that are still to come. -/
inductive Underway (backend : Backend) (sender : ScreenFrameCodec) (frame : ScreenFrame) :
    ScreenFrameCodec → Nat → List UInt8 → Prop
  | chacha {readCipher writeCipher readCipher' writeCipher' : HomeKitCipher}
      {counterRx counterTx counterRx' counterTx' : HomeKitChaChaNonce}
      {nonce : Option HomeKitChaChaNonce} {flags : ScreenFrameCodecFlags} {len : Nat}
      (video : frame.header.opcode = .videoFrame)
      (crypto : sender.crypto = some (.chacha readCipher writeCipher counterRx counterTx))
      (key : keyOf writeCipher = keyOf readCipher')
      (midway : Midway frame.data (sentHeader true frame).write counterTx len readCipher')
      (nonce_taken : nonce = none ∧ counterRx' = counterTx ∨
        nonce = some counterTx ∧ counterRx' = counterTx + 1) :
      Underway backend sender frame
        ⟨some (sentHeader true frame, nonce, len - 16),
          some (.chacha readCipher' writeCipher' counterRx' counterTx'), flags⟩
        len (mixed frame.data (sentBody backend sender frame) len readCipher')
  | aes {readCipher writeCipher readCipher' writeCipher' : Aes128Ctr}
      {flags : ScreenFrameCodecFlags} {len : Nat}
      (video : frame.header.opcode = .videoFrame)
      (crypto : sender.crypto = some (.aesCtr readCipher writeCipher))
      (stream : readCipher' = { writeCipher with position := writeCipher.position + len }) :
      Underway backend sender frame
        ⟨some ((asRead frame).header, none, len), some (.aesCtr readCipher' writeCipher'), flags⟩
        len (overlay frame.data (sentBody backend sender frame) len)
  | plain {crypto : Option ScreenFrameCodecCrypto} {flags : ScreenFrameCodecFlags} {len : Nat}
      (plain : ¬Encrypted sender frame) (matched : Matched sender.crypto crypto) :
      Underway backend sender frame ⟨some ((asRead frame).header, none, 0), crypto, flags⟩ len
        frame.data

/-! ## Calls of the codec -/

/-- A call of the codec as a decoder's step. -/
def outcome (backend : Backend) (codec : ScreenFrameCodec) (src : List UInt8) :
    Catplay.Library.StreamDecoder.Outcome ScreenFrameCodec ScreenFrame UInt8 RtspError :=
  match codec.decode backend src with
  | (.ok (some frame), next, rest) => .item frame next rest
  | (.ok none, next, rest) => .more next rest
  | (.error e, _, _) => .error e

section Calls

variable {backend : Backend} {codec : ScreenFrameCodec} {header : ScreenFrameHeader}
  {nonce : Option HomeKitChaChaNonce} {done : Nat} {part : List UInt8}

theorem take_header (part : List UInt8) :
    (header.write ++ part).take ScreenFrameHeader.size = header.write := by
  rw [List.take_append_of_le_length (Nat.le_of_eq (length_write header).symm),
    List.take_of_length_le (Nat.le_of_eq (length_write header))]

theorem drop_header (part : List UInt8) :
    (header.write ++ part).drop ScreenFrameHeader.size = part := by
  rw [List.drop_append_of_le_length (Nat.le_of_eq (length_write header).symm),
    List.drop_of_length_le (Nat.le_of_eq (length_write header)), List.nil_append]

theorem length_header_append (part : List UInt8) :
    (header.write ++ part).length = ScreenFrameHeader.size + part.length := by
  rw [List.length_append, length_write]

/-- A header that is there is read, and the call goes on with it. -/
theorem outcome_header (hnone : codec.header = none) (part : List UInt8) :
    outcome backend codec (header.write ++ part) =
      outcome backend { codec with header := some (header, none, 0) } (header.write ++ part) := by
  have hlength : ¬(header.write ++ part).length < ScreenFrameHeader.size := by
    rw [length_header_append]
    omega
  unfold outcome ScreenFrameCodec.decode
  simp only [hnone]
  rw [if_neg hlength, take_header, fromBytes_write]

theorem outcome_short (hnone : codec.header = none) {src : List UInt8}
    (hshort : src.length < ScreenFrameHeader.size) :
    outcome backend codec src = .more codec src := by
  unfold outcome ScreenFrameCodec.decode
  simp only [hnone]
  rw [if_pos hshort]

variable (hlimit : header.bodySize.toNat ≤ ScreenFrameCodec.maxPayloadSize)

include hlimit

/-- A part of the body that is under a cipher. -/
theorem decodeBody_part (hencrypted : header.opcode = .videoFrame ∧ codec.crypto.isSome = true)
    (hpart : part.length < header.bodySize.toNat) {chunk : ScreenFrameCodec.Chunk}
    (hchunk : codec.decryptVideoFrameChunk backend header.write part header.bodySize.toNat nonce done
      part.length = chunk) {count : Nat} (hresult : chunk.result = .ok count) :
    codec.decodeBody backend header nonce done (header.write ++ part) =
      (.ok none,
        { chunk.codec with header := some (header, chunk.decryptNonce, done + count) },
        header.write ++ chunk.body) := by
  unfold ScreenFrameCodec.decodeBody
  simp only [take_header, drop_header, length_header_append, Nat.add_sub_cancel_left,
    Nat.add_lt_add_iff_left]
  rw [if_neg (Nat.not_lt.mpr hlimit), if_pos hpart, if_pos hencrypted]
  simp only [hchunk, hresult]

/-- The whole of the body that is under a cipher. -/
theorem decodeBody_whole (hencrypted : header.opcode = .videoFrame ∧ codec.crypto.isSome = true)
    (hpart : header.bodySize.toNat ≤ part.length) {chunk : ScreenFrameCodec.Chunk}
    (hchunk : codec.decryptVideoFrameChunk backend header.write part header.bodySize.toNat nonce done
      header.bodySize.toNat = chunk) {count : Nat} (hresult : chunk.result = .ok count) :
    codec.decodeBody backend header nonce done (header.write ++ part) =
      (.ok (some
        (if codec.isChacha then
          { header :=
              { header with
                bodySize := .ofNat (header.bodySize.toNat - ScreenFrameCodec.chachaTagLen) }
            data := (chunk.body.take header.bodySize.toNat).take
              (header.bodySize.toNat - ScreenFrameCodec.chachaTagLen) }
        else ⟨header, chunk.body.take header.bodySize.toNat⟩)),
        chunk.codec, chunk.body.drop header.bodySize.toNat) := by
  unfold ScreenFrameCodec.decodeBody
  simp only [take_header, drop_header, length_header_append, Nat.add_lt_add_iff_left]
  rw [if_neg (Nat.not_lt.mpr hlimit), if_neg (Nat.not_lt.mpr hpart), if_pos hencrypted]
  simp only [hchunk, hresult]

/-- The body of a frame that passes as it is. -/
theorem decodeBody_plain
    (hplain : ¬(header.opcode = .videoFrame ∧ codec.crypto.isSome = true)) :
    codec.decodeBody backend header nonce done (header.write ++ part) =
      if part.length < header.bodySize.toNat then
        (.ok none, { codec with header := some (header, nonce, done) }, header.write ++ part)
      else
        (.ok (some ⟨header, part.take header.bodySize.toNat⟩), codec,
          part.drop header.bodySize.toNat) := by
  have hdrop : (header.write ++ part).drop (ScreenFrameHeader.size + header.bodySize.toNat) =
      part.drop header.bodySize.toNat := by
    rw [← List.drop_drop, drop_header]
  unfold ScreenFrameCodec.decodeBody
  simp only [drop_header, length_header_append, Nat.add_lt_add_iff_left, hdrop]
  rw [if_neg (Nat.not_lt.mpr hlimit), if_neg hplain, if_neg hplain]

end Calls

/-! ## The ciphers -/

section ChachaChunks

variable {backend : Backend} {frame : ScreenFrame} {readCipher writeCipher : HomeKitCipher}
  {counter counterRx counterTx : HomeKitChaChaNonce} {nonce : Option HomeKitChaChaNonce}
  {flags : ScreenFrameCodecFlags} {headerRaw : List UInt8} {len : Nat}

variable (hstandard : Standard backend) (hmax : frame.data.length ≤ maxPayloadBytes)
  (hmidway : Midway frame.data headerRaw counter len readCipher)
  (hnonce : nonce = none ∧ counterRx = counter ∨ nonce = some counter ∧ counterRx = counter + 1)

include hstandard hmax hmidway hnonce

theorem chunk_chacha_part {more : Nat} (hmore : len ≤ more) (hlen : more < frame.data.length + 16) :
    ∃ readCipher',
      ScreenFrameCodec.decryptVideoFrameChunk backend
          ⟨none, some (.chacha readCipher writeCipher counterRx counterTx), flags⟩ headerRaw
          ((mixed frame.data (wire (keyOf readCipher) frame.data headerRaw counter) len
            readCipher).take more) (frame.data.length + 16) nonce (len - 16) more =
        { codec := ⟨none, some (.chacha readCipher' writeCipher (counter + 1) counterTx), flags⟩
          body := (mixed frame.data (wire (keyOf readCipher) frame.data headerRaw counter) more
            readCipher').take more
          decryptNonce := some counter
          result := .ok (more - 16 - (len - 16)) } ∧
      Midway frame.data headerRaw counter more readCipher' ∧
      keyOf readCipher' = keyOf readCipher := by
  obtain ⟨readCipher', hchunk, hmidway', hkey⟩ :=
    decryptProgressive_part hstandard hmidway hmore hlen hmax
  refine ⟨readCipher', ?_, hmidway', hkey⟩
  have hdrop : ∀ part : List UInt8, (part.take more).drop more = [] :=
    fun part => List.drop_of_length_le (List.length_take_le more part)
  have hnotFinal : ¬more = frame.data.length + 16 := Nat.ne_of_lt hlen
  unfold ScreenFrameCodec.decryptVideoFrameChunk ScreenFrameCodec.decryptVideoFrameChunkChacha
  -- the nonce is taken at the first call for a body, and kept for the others
  obtain ⟨rfl, rfl⟩ | ⟨rfl, rfl⟩ := hnonce
  · simp only [HomeKitChaChaNonce.advance, List.take_take, Nat.min_self, hchunk, hdrop,
      List.append_nil, hnotFinal, false_and, if_false]
  · simp only [List.take_take, Nat.min_self, hchunk, hdrop, List.append_nil, hnotFinal, false_and,
      if_false]

theorem chunk_chacha_whole (hlen : len ≤ frame.data.length + 16) (rest : List UInt8) :
    ∃ readCipher',
      ScreenFrameCodec.decryptVideoFrameChunk backend
          ⟨none, some (.chacha readCipher writeCipher counterRx counterTx), flags⟩ headerRaw
          (mixed frame.data (wire (keyOf readCipher) frame.data headerRaw counter) len
            readCipher ++ rest) (frame.data.length + 16) nonce (len - 16)
          (frame.data.length + 16) =
        { codec := ⟨none, some (.chacha readCipher' writeCipher (counter + 1) counterTx), flags⟩
          body := overlay frame.data (wire (keyOf readCipher) frame.data headerRaw counter)
            frame.data.length ++ rest
          decryptNonce := some counter
          result := .ok (frame.data.length - (len - 16)) } ∧
      Idle readCipher' ∧ keyOf readCipher' = keyOf readCipher := by
  obtain ⟨readCipher', hchunk, hidle, hkey⟩ :=
    decryptProgressive_whole hstandard hmidway hlen hmax
  have hlength : (mixed frame.data (wire (keyOf readCipher) frame.data headerRaw counter) len
      readCipher).length = frame.data.length + 16 := length_mixed hlen
  refine ⟨if flags.preferPrefetchChacha then readCipher'.resetPrefetch else readCipher', ?_, ?_, ?_⟩
  · unfold ScreenFrameCodec.decryptVideoFrameChunk ScreenFrameCodec.decryptVideoFrameChunkChacha
    have htake := @List.take_left' _ _ rest _ hlength
    have hdrop := @List.drop_left' _ _ rest _ hlength
    obtain ⟨rfl, rfl⟩ | ⟨rfl, rfl⟩ := hnonce
    · simp only [HomeKitChaChaNonce.advance, htake, hdrop, hchunk, true_and]
    · simp only [htake, hdrop, hchunk, true_and]
  · split
    · exact idle_resetPrefetch
    · exact hidle
  · split
    · exact keyOf_resetPrefetch.trans hkey
    · exact hkey

end ChachaChunks

section AesChunks

variable {backend : Backend} {data : List UInt8} {readCipher writeCipher : Aes128Ctr} {len : Nat}
  {flags : ScreenFrameCodecFlags}

@[simp] theorem length_aesBody : (aesBody backend readCipher data).length = data.length :=
  length_xorBytes_window _ _ _

/-- A stretch of the body becomes the stretch of the data. -/
theorem applyKeystream_stretch {more : Nat} (hmore : more ≤ data.length) :
    Aes128Ctr.applyKeystream backend { readCipher with position := readCipher.position + len }
        (((aesBody backend readCipher data).take more).drop len) =
      ({ readCipher with position := readCipher.position + len + (more - len) },
        (data.take more).drop len) := by
  have hlength : (((aesBody backend readCipher data).take more).drop len).length = more - len := by
    rw [List.length_drop, List.length_take, length_aesBody, Nat.min_eq_left hmore]
  have hlength' : ((data.take more).drop len).length = more - len := by
    rw [List.length_drop, List.length_take, Nat.min_eq_left hmore]
  unfold Aes128Ctr.applyKeystream
  dsimp only
  rw [hlength, aesBody, xorBytes_slice _ _ hmore, hlength',
    xorBytes_xorBytes (by rw [hlength', length_window])]

/-- **A part of a body under the AES stream.** -/
theorem chunk_aes {more : Nat} (headerRaw : List UInt8) (hmore : len ≤ more)
    (hlen : more ≤ data.length) (rest : List UInt8) (size : Nat) :
    ScreenFrameCodec.decryptVideoFrameChunk backend
        ⟨none, some (.aesCtr { readCipher with position := readCipher.position + len } writeCipher),
          flags⟩ headerRaw
        ((overlay data (aesBody backend readCipher data) len).take more ++ rest) size none len more =
      { codec :=
          ⟨none, some (.aesCtr { readCipher with position := readCipher.position + more }
            writeCipher), flags⟩
        body := (overlay data (aesBody backend readCipher data) more).take more ++ rest
        decryptNonce := none
        result := .ok (more - len) } := by
  set part := (overlay data (aesBody backend readCipher data) len).take more with hpart
  have hlength : part.length = more :=
    length_take_overlay (Nat.le_trans hmore hlen) (Nat.le_of_eq length_aesBody.symm)
      (by rw [length_aesBody]; exact hlen)
  unfold ScreenFrameCodec.decryptVideoFrameChunk ScreenFrameCodec.decryptVideoFrameChunkAes
  by_cases hnew : more - len > 0
  · have htake := @List.take_left' _ _ rest _ hlength
    have hdrop := @List.drop_left' _ _ rest _ hlength
    have hfront : (part ++ rest).take len = part.take len := by
      rw [List.take_append_of_le_length (by rw [hlength]; exact hmore)]
    have hstretch : part.drop len = ((aesBody backend readCipher data).take more).drop len := by
      have h := @stretch_overlay data (aesBody backend readCipher data) len more more
        (Nat.le_trans hmore hlen) hmore (Nat.le_refl more)
      rwa [List.take_take, Nat.min_self] at h
    have hstep : part.take len ++ (data.take more).drop len ++ part.drop more =
        (overlay data (aesBody backend readCipher data) more).take more :=
      overlay_step hmore hlen (Nat.le_refl more)
    have hnone : part.drop more = [] := List.drop_of_length_le (Nat.le_of_eq hlength)
    have hposition : readCipher.position + len + (more - len) = readCipher.position + more := by
      omega
    rw [hnone, List.append_nil] at hstep
    simp only [hnew, if_true, htake, hdrop, hfront, hstretch, applyKeystream_stretch hlen, hstep,
      hposition]
  · have hsame : more = len := by omega
    simp only [hnew, if_false]
    rw [hpart, hsame]

end AesChunks

section Underway

variable {backend : Backend} {sender receiver : ScreenFrameCodec} {frame : ScreenFrame} {len : Nat}
  {body : List UInt8}

/-- **The header is there**, and nothing of the body has been seen. -/
theorem underway_start (h : InStep sender receiver) :
    Underway backend sender frame
      { receiver with header := some (sentHeader sender.isChacha frame, none, 0) } 0
      (sentBody backend sender frame) := by
  obtain ⟨header, crypto, flags⟩ := receiver
  have hmatched : Matched sender.crypto crypto := h.matched
  by_cases hencrypted : Encrypted sender frame
  · obtain ⟨hvideo, hsome⟩ := hencrypted
    obtain ⟨crypto', hcrypto⟩ := Option.isSome_iff_exists.mp hsome
    rw [hcrypto] at hmatched
    cases crypto' with
    | chacha readCipher writeCipher counterRx counterTx =>
      rw [isChacha_chacha hcrypto]
      match crypto, hmatched with
      | some (.chacha readCipher' writeCipher' counterRx' counterTx'), ⟨hkey, hcounter, hidle⟩ =>
        have hstart := @Underway.chacha backend sender frame _ _ readCipher' writeCipher' _ _
          counterRx' counterTx' none flags 0 hvideo hcrypto hkey (midway_zero hidle)
          (.inl ⟨rfl, hcounter.symm⟩)
        rwa [mixed_zero] at hstart
    | aesCtr readCipher writeCipher =>
      rw [isChacha_aes hcrypto, sentHeader_of_plain false fun h => Bool.false_ne_true h.2]
      match crypto, hmatched with
      | some (.aesCtr readCipher' writeCipher'), hsame =>
        exact .aes hvideo hcrypto hsame.symm
  · rw [sentHeader_plain hencrypted, (@sent_plain backend sender frame hencrypted).1]
    exact .plain hencrypted hmatched

theorem Underway.length_body (h : Underway backend sender frame receiver len body)
    (hlen : len ≤ (sentBody backend sender frame).length) :
    body.length = (sentBody backend sender frame).length := by
  cases h with
  | @chacha readCipher writeCipher readCipher' writeCipher' counterRx counterTx counterRx' counterTx'
      nonce flags len video crypto key midway nonce_taken =>
    rw [sentBody_chacha crypto video, key] at hlen ⊢
    rw [length_wire] at hlen ⊢
    exact length_mixed hlen
  | aes video crypto stream =>
    have hsent : (sentBody backend sender frame).length = frame.data.length := by
      rw [sentBody_aes crypto video, aesBody, length_xorBytes_window]
    rw [hsent] at hlen
    exact length_overlay hlen (Nat.le_of_eq hsent.symm)
  | plain plain matched => rw [(@sent_plain backend sender frame plain).1]

theorem outcome_underway {crypto : Option ScreenFrameCodecCrypto} {flags : ScreenFrameCodecFlags}
    {header : ScreenFrameHeader} {nonce : Option HomeKitChaChaNonce} {done : Nat}
    (src : List UInt8) :
    outcome backend ⟨some (header, nonce, done), crypto, flags⟩ src =
      match ScreenFrameCodec.decodeBody backend ⟨none, crypto, flags⟩ header nonce done src with
      | (.ok (some frame), next, rest) => .item frame next rest
      | (.ok none, next, rest) => .more next rest
      | (.error e, _, _) => .error e := rfl

theorem drop_overlay {data wire : List UInt8} {done more : Nat} (h : done ≤ data.length)
    (hmore : done ≤ more) : (overlay data wire done).drop more = wire.drop more := by
  have hfront : (data.take done).length = done := by rw [List.length_take, Nat.min_eq_left h]
  rw [overlay, List.drop_append, hfront, List.drop_of_length_le (by rw [hfront]; exact hmore),
    List.nil_append, List.drop_drop, Nat.add_sub_cancel' hmore]

theorem drop_mixed {data wire : List UInt8} {len more : Nat} (cipher : HomeKitCipher)
    (hlen : len ≤ data.length + 16) (hmore : len ≤ more) :
    (mixed data wire len cipher).drop more = wire.drop more := by
  cases cipher with
  | fast cipher => exact drop_overlay (by omega) (by omega)
  | ring cipher => rfl

theorem sentBy_chacha {readCipher writeCipher : HomeKitCipher}
    {counterRx counterTx : HomeKitChaChaNonce}
    (hcrypto : sender.crypto = some (.chacha readCipher writeCipher counterRx counterTx))
    (hvideo : frame.header.opcode = .videoFrame) :
    ∃ writeCipher', (sentBy sender frame).crypto =
        some (.chacha readCipher writeCipher' counterRx (counterTx + 1)) ∧
      keyOf writeCipher' = keyOf writeCipher := by
  unfold sentBy
  rw [hvideo, hcrypto]
  refine ⟨_, rfl, ?_⟩
  split
  · exact keyOf_resetPrefetch
  · rfl

theorem sentBy_aes {readCipher writeCipher : Aes128Ctr}
    (hcrypto : sender.crypto = some (.aesCtr readCipher writeCipher))
    (hvideo : frame.header.opcode = .videoFrame) :
    (sentBy sender frame).crypto =
      some (.aesCtr readCipher
        { writeCipher with position := writeCipher.position + frame.data.length }) := by
  unfold sentBy
  rw [hvideo, hcrypto]

theorem isSome_of_matched {crypto crypto' : Option ScreenFrameCodecCrypto}
    (h : Matched crypto crypto') : crypto'.isSome = crypto.isSome := by
  match crypto, crypto', h with
  | some (.chacha ..), some (.chacha ..), _ => rfl
  | some (.aesCtr ..), some (.aesCtr ..), _ => rfl
  | none, none, _ => rfl

variable (hstandard : Standard backend) (hfits : Fits sender.isChacha frame)

include hstandard hfits

/-- **A part of the body has come in.** -/
theorem decode_part (h : Underway backend sender frame receiver len body) {more : Nat}
    (hmore : len ≤ more) (hlen : more < (sentBody backend sender frame).length) :
    ∃ receiver' body',
      outcome backend receiver
          ((sentHeader sender.isChacha frame).write ++ body.take more) =
        .more receiver' ((sentHeader sender.isChacha frame).write ++ body'.take more) ∧
      Underway backend sender frame receiver' more body' ∧ body'.drop more = body.drop more := by
  have hlimit : (sentHeader sender.isChacha frame).bodySize.toNat ≤
      ScreenFrameCodec.maxPayloadSize := by rwa [toNat_bodySize hfits]
  have hpart : (body.take more).length < (sentHeader sender.isChacha frame).bodySize.toNat := by
    rw [toNat_bodySize hfits, ← @length_sentBody backend]
    exact Nat.lt_of_le_of_lt (List.length_take_le more body) hlen
  have hbody : (body.take more).length = more := by
    rw [List.length_take, h.length_body (by omega)]
    omega
  have hsize := @length_sentBody backend sender frame
  have htotal := toNat_bodySize hfits
  cases h with
  | @chacha readCipher writeCipher readCipher' writeCipher' counterRx counterTx counterRx' counterTx'
      nonce flags len video crypto key midway nonce_taken =>
    rw [isChacha_chacha crypto] at hfits hlimit hpart hsize htotal ⊢
    have hoverhead : overhead true frame = 16 := if_pos ⟨video, rfl⟩
    rw [hoverhead] at hsize htotal
    obtain ⟨readCipher'', hchunk, hmidway', hkey⟩ :=
      @chunk_chacha_part backend frame readCipher' writeCipher' counterTx counterRx' counterTx' nonce
        flags (sentHeader true frame).write len hstandard hfits.length_le midway nonce_taken more
        hmore (by omega)
    have hwire : sentBody backend sender frame =
        wire (keyOf readCipher') frame.data (sentHeader true frame).write counterTx := by
      rw [sentBody_chacha crypto video, key]
    rw [← hwire] at hchunk
    have hcall := @decodeBody_part backend
      ⟨none, some (.chacha readCipher' writeCipher' counterRx' counterTx'), flags⟩
      (sentHeader true frame) nonce (len - 16) _ hlimit ⟨video, rfl⟩ hpart _
      (Eq.trans (by rw [hbody, htotal]) hchunk) _ rfl
    have hdone : len - 16 + (more - 16 - (len - 16)) = more - 16 := by omega
    dsimp only at hcall
    rw [hdone] at hcall
    refine ⟨⟨some (sentHeader true frame, some counterTx, more - 16),
      some (.chacha readCipher'' writeCipher' (counterTx + 1) counterTx'), flags⟩,
      mixed frame.data (sentBody backend sender frame) more readCipher'', ?_,
      .chacha video crypto (key.trans hkey.symm) hmidway' (.inr ⟨rfl, rfl⟩), ?_⟩
    · rw [outcome_underway, hcall]
    · rw [drop_mixed _ (by omega) (Nat.le_refl more), drop_mixed _ (by omega) hmore]
  | @aes readCipher writeCipher readCipher' writeCipher' flags len video crypto stream =>
    rw [isChacha_aes crypto] at hfits hlimit hpart hsize htotal ⊢
    have hheader : sentHeader false frame = (asRead frame).header :=
      sentHeader_of_plain false fun h => Bool.false_ne_true h.2
    have hoverhead : overhead false frame = 0 := if_neg fun h => Bool.false_ne_true h.2
    rw [hoverhead, Nat.add_zero] at hsize
    rw [hheader] at hlimit hpart htotal ⊢
    have hchunk := @chunk_aes backend frame.data writeCipher writeCipher' len flags more
      (asRead frame).header.write hmore (by omega) []
      ((asRead frame).header.bodySize.toNat)
    rw [List.append_nil, List.append_nil, ← stream, ← sentBody_aes crypto video] at hchunk
    have hcall := @decodeBody_part backend
      ⟨none, some (.aesCtr readCipher' writeCipher'), flags⟩
      (asRead frame).header none len _ hlimit ⟨video, rfl⟩ hpart _
      (Eq.trans (by rw [hbody]) hchunk) _ rfl
    have hdone : len + (more - len) = more := by omega
    dsimp only at hcall
    rw [hdone] at hcall
    refine ⟨⟨some ((asRead frame).header, none, more),
      some (.aesCtr { writeCipher with position := writeCipher.position + more } writeCipher'),
      flags⟩, overlay frame.data (sentBody backend sender frame) more, ?_,
      .aes video crypto rfl, ?_⟩
    · rw [outcome_underway, hcall]
    · rw [drop_overlay (by omega) (Nat.le_refl more), drop_overlay (by omega) hmore]
  | @plain crypto flags len plain matched =>
    have hheader := sentHeader_plain plain
    rw [hheader] at hlimit hpart ⊢
    have hnot : ¬((asRead frame).header.opcode = .videoFrame ∧ crypto.isSome = true) :=
      fun h => plain ⟨h.1, (isSome_of_matched matched).symm.trans h.2⟩
    have hcall := @decodeBody_plain backend ⟨none, crypto, flags⟩ (asRead frame).header none 0
      (frame.data.take more) hlimit hnot
    rw [if_pos hpart] at hcall
    refine ⟨⟨some ((asRead frame).header, none, 0), crypto, flags⟩, frame.data, ?_,
      .plain plain matched, rfl⟩
    rw [outcome_underway, hcall]

/-- **The whole of the body has come in.** -/
theorem decode_whole (h : Underway backend sender frame receiver len body)
    (hlen : len ≤ (sentBody backend sender frame).length) (rest : List UInt8) :
    ∃ receiver',
      outcome backend receiver
          ((sentHeader sender.isChacha frame).write ++ (body ++ rest)) =
        .item (asRead frame) receiver' rest ∧
      InStep (sentBy sender frame) receiver' := by
  have hlimit : (sentHeader sender.isChacha frame).bodySize.toNat ≤
      ScreenFrameCodec.maxPayloadSize := by rwa [toNat_bodySize hfits]
  have hsize := @length_sentBody backend sender frame
  have htotal := toNat_bodySize hfits
  have hbody := h.length_body hlen
  have hpart : (sentHeader sender.isChacha frame).bodySize.toNat ≤ (body ++ rest).length := by
    rw [List.length_append]
    omega
  cases h with
  | @chacha readCipher writeCipher readCipher' writeCipher' counterRx counterTx counterRx' counterTx'
      nonce flags len video crypto key midway nonce_taken =>
    rw [isChacha_chacha crypto] at hfits hlimit hpart hsize htotal ⊢
    have hoverhead : overhead true frame = 16 := if_pos ⟨video, rfl⟩
    rw [hoverhead] at hsize htotal
    obtain ⟨readCipher'', hchunk, hidle, hkey⟩ :=
      @chunk_chacha_whole backend frame readCipher' writeCipher' counterTx counterRx' counterTx'
        nonce flags (sentHeader true frame).write len hstandard hfits.length_le midway nonce_taken
        (by omega) rest
    have hwire : sentBody backend sender frame =
        wire (keyOf readCipher') frame.data (sentHeader true frame).write counterTx := by
      rw [sentBody_chacha crypto video, key]
    rw [← hwire] at hchunk
    have hcall := @decodeBody_whole backend
      ⟨none, some (.chacha readCipher' writeCipher' counterRx' counterTx'), flags⟩
      (sentHeader true frame) nonce (len - 16) _ hlimit ⟨video, rfl⟩ hpart _
      (Eq.trans (by rw [htotal]) hchunk) _ rfl
    have hlength : (overlay frame.data (sentBody backend sender frame) frame.data.length).length =
        frame.data.length + 16 := by
      rw [length_overlay (Nat.le_refl _) (by omega), hsize]
    have hdata : ((overlay frame.data (sentBody backend sender frame) frame.data.length ++ rest).take
        (frame.data.length + 16)).take frame.data.length = frame.data := by
      rw [@List.take_left' _ _ rest _ hlength, overlay, List.take_length,
        List.take_left' rfl]
    have hrest := @List.drop_left' _ _ rest _ hlength
    obtain ⟨writeCipher'', hnext, hkey'⟩ := sentBy_chacha crypto video
    refine ⟨⟨none, some (.chacha readCipher'' writeCipher' (counterTx + 1) counterTx'), flags⟩, ?_,
      ⟨rfl, ?_⟩⟩
    · have hframe : (⟨{ sentHeader true frame with bodySize := .ofNat frame.data.length },
          frame.data⟩ : ScreenFrame) = asRead frame := rfl
      have htag : frame.data.length + 16 - ScreenFrameCodec.chachaTagLen = frame.data.length := rfl
      rw [outcome_underway, hcall]
      simp only [htotal, htag, hdata, hrest, ScreenFrameCodec.isChacha, if_true]
      rw [hframe]
    · rw [hnext]
      exact ⟨hkey'.trans (key.trans hkey.symm), rfl, hidle⟩
  | @aes readCipher writeCipher readCipher' writeCipher' flags len video crypto stream =>
    rw [isChacha_aes crypto] at hfits hlimit hpart hsize htotal ⊢
    have hheader : sentHeader false frame = (asRead frame).header :=
      sentHeader_of_plain false fun h => Bool.false_ne_true h.2
    have hoverhead : overhead false frame = 0 := if_neg fun h => Bool.false_ne_true h.2
    rw [hoverhead, Nat.add_zero] at hsize htotal
    rw [hheader] at hlimit hpart htotal ⊢
    have hchunk := @chunk_aes backend frame.data writeCipher writeCipher' len flags
      frame.data.length (asRead frame).header.write (by omega) (Nat.le_refl _) rest
      ((asRead frame).header.bodySize.toNat)
    have hall : ∀ done, done ≤ frame.data.length →
        (overlay frame.data (aesBody backend writeCipher frame.data) done).take frame.data.length =
          overlay frame.data (aesBody backend writeCipher frame.data) done := by
      intro done hdone
      refine List.take_of_length_le (Nat.le_of_eq ?_)
      rw [length_overlay hdone (Nat.le_of_eq length_aesBody.symm), length_aesBody]
    have hwhole : overlay frame.data (aesBody backend writeCipher frame.data) frame.data.length =
        frame.data := by
      rw [overlay, List.take_length, List.drop_of_length_le (Nat.le_of_eq length_aesBody),
        List.append_nil]
    rw [hall len (by omega), hall _ (Nat.le_refl _), hwhole, ← stream,
      ← sentBody_aes crypto video] at hchunk
    have hcall := @decodeBody_whole backend
      ⟨none, some (.aesCtr readCipher' writeCipher'), flags⟩
      (asRead frame).header none len _ hlimit ⟨video, rfl⟩ hpart _
      (Eq.trans (by rw [htotal]) hchunk) _ rfl
    refine ⟨⟨none, some (.aesCtr
      { writeCipher with position := writeCipher.position + frame.data.length } writeCipher'),
      flags⟩, ?_, ⟨rfl, ?_⟩⟩
    · rw [outcome_underway, hcall]
      simp only [htotal, ScreenFrameCodec.isChacha, Bool.false_eq_true, if_false,
        List.take_left', List.drop_left']
      rfl
    · rw [sentBy_aes crypto video]
      rfl
  | @plain crypto flags len plain matched =>
    have hheader := sentHeader_plain plain
    rw [hheader] at hlimit hpart htotal ⊢
    rw [(@sent_plain backend sender frame plain).1] at hsize
    have hnot : ¬((asRead frame).header.opcode = .videoFrame ∧ crypto.isSome = true) :=
      fun h => plain ⟨h.1, (isSome_of_matched matched).symm.trans h.2⟩
    have hcall := @decodeBody_plain backend ⟨none, crypto, flags⟩ (asRead frame).header none 0
      (frame.data ++ rest) hlimit hnot
    rw [if_neg (Nat.not_lt.mpr hpart), htotal, ← hsize, List.take_left' rfl,
      List.drop_left' rfl] at hcall
    refine ⟨⟨none, crypto, flags⟩, ?_, ⟨rfl, ?_⟩⟩
    · rw [outcome_underway, hcall]
      rfl
    · rw [(@sent_plain backend sender frame plain).2.1]
      exact matched

end Underway

end Catplay.Analysis.Screen
