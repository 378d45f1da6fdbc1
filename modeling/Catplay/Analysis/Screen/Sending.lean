import Catplay.Analysis.Hap.Progress
import Catplay.Library.StreamDecoder
import Catplay.Model.Screen.Codec

/-!
# Sending screen frames

The header of a frame, and what is sent behind it.
-/

set_option autoImplicit false

/-!
## Headers of screen frames

A header takes 128 bytes and is read back from them.
-/

namespace Catplay.Analysis.Screen

open Catplay.Model.Screen Catplay.Library

section Rows

variable {α : Type} {width : Nat}

theorem length_rows (rows : List (Vector α width)) :
    (rows.flatMap (·.toList)).length = rows.length * width := by
  induction rows with
  | nil => exact (Nat.zero_mul width).symm
  | cons row rows ih =>
    rw [List.flatMap_cons, List.length_append, ih, Vector.length_toList, List.length_cons,
      Nat.succ_mul, Nat.add_comm]

/-- The cells of a table, row after row. -/
theorem getElem?_rows (rows : List (Vector α width)) (row : Nat) {column : Nat}
    (h : column < width) :
    (rows.flatMap (·.toList))[row * width + column]? = rows[row]?.map (·[column]) := by
  induction rows generalizing row with
  | nil => rfl
  | cons first rows ih =>
    rw [List.flatMap_cons]
    cases row with
    | zero =>
      rw [Nat.zero_mul, Nat.zero_add, List.getElem?_append_left (by rwa [Vector.length_toList])]
      simp [h]
    | succ row =>
      rw [Nat.succ_mul, List.getElem?_append_right (by rw [Vector.length_toList]; omega),
        Vector.length_toList, List.getElem?_cons_succ, ← ih row]
      congr 1
      omega

end Rows

variable (header : ScreenFrameHeader)

@[simp] theorem length_write : header.write.length = ScreenFrameHeader.size := by
  unfold ScreenFrameHeader.write
  rw [List.length_append, List.length_append, List.length_append, length_rows,
    LittleEndian.length_toBytes, Vector.length_toList, Vector.length_toList]
  rfl

/-- The parts of a header at their places. -/
theorem write_eq :
    header.write = LittleEndian.toBytes 4 header.bodySize.toNat ++
      header.opcode.toU8 :: header.smallParam[0] :: header.smallParam[1] ::
        header.smallParam[2] :: header.params.toList.flatMap (·.toList) := by
  have hsmall : header.smallParam =
      #v[header.smallParam[0], header.smallParam[1], header.smallParam[2]] := by
    apply Vector.ext
    intro i hi
    match i with
    | 0 => rfl
    | 1 => rfl
    | 2 => rfl
  unfold ScreenFrameHeader.write
  conv_lhs => rw [hsmall]
  rw [List.append_assoc, List.append_assoc]
  rfl

/-- **A header is read back.** -/
theorem fromBytes_write : ScreenFrameHeader.fromBytes header.write = some header := by
  have hlength : ¬header.write.length < screenFrameHeaderLen := by
    rw [length_write]
    exact Nat.lt_irrefl _
  have hfour := LittleEndian.length_toBytes 4 header.bodySize.toNat
  have hbyte : ∀ i, ScreenFrameHeader.byteAt header.write (4 + i) =
      ScreenFrameHeader.byteAt (header.opcode.toU8 :: header.smallParam[0] ::
        header.smallParam[1] :: header.smallParam[2] ::
          header.params.toList.flatMap (·.toList)) i := by
    intro i
    unfold ScreenFrameHeader.byteAt
    rw [write_eq, List.getElem?_append_right (by omega), hfour, Nat.add_sub_cancel_left]
  have hsize : UInt32.ofNat (LittleEndian.ofBytes (header.write.take 4)) = header.bodySize := by
    rw [write_eq, List.take_append_of_le_length (Nat.le_of_eq hfour.symm),
      List.take_of_length_le (Nat.le_of_eq hfour),
      LittleEndian.ofBytes_toBytes header.bodySize.toNat_lt, UInt32.ofNat_toNat]
  have hopcode : ScreenOpCode.parse (ScreenFrameHeader.byteAt header.write 4) = header.opcode := by
    rw [hbyte 0]
    exact ScreenOpCode.parse_toU8 header.opcode
  have hsmall : #v[ScreenFrameHeader.byteAt header.write 5, ScreenFrameHeader.byteAt header.write 6,
      ScreenFrameHeader.byteAt header.write 7] = header.smallParam := by
    rw [hbyte 1, hbyte 2, hbyte 3]
    apply Vector.ext
    intro i hi
    match i with
    | 0 => rfl
    | 1 => rfl
    | 2 => rfl
  have hparams : (Vector.ofFn fun i : Fin 15 => Vector.ofFn fun j : Fin 8 =>
      ScreenFrameHeader.byteAt header.write (ScreenFrameHeader.paramsOffset + i * 8 + j)) =
        header.params := by
    apply Vector.ext
    intro i hi
    apply Vector.ext
    intro j hj
    have hcell := getElem?_rows header.params.toList i hj
    have hplace : ScreenFrameHeader.paramsOffset + i * 8 + j = 4 + (4 + (i * 8 + j)) := by
      unfold ScreenFrameHeader.paramsOffset
      omega
    rw [Vector.getElem_ofFn, Vector.getElem_ofFn, hplace, hbyte, Nat.add_comm 4]
    show ((header.params.toList.flatMap (·.toList))[i * 8 + j]?).getD 0 = _
    rw [hcell]
    simp [hi]
  unfold ScreenFrameHeader.fromBytes
  rw [if_neg hlength, hsize, hopcode, hsmall, hparams]

end Catplay.Analysis.Screen

/-!
## What is sent of a frame

Each frame is sent as a header, which has the length of the body, and a body: under a nonce of its
own with a tag behind it, under the next stretch of the AES stream, or as it is.
-/

namespace Catplay.Analysis.Screen

open Catplay.Model.Hap Catplay.Model.Screen Catplay.Analysis.Hap Catplay.Library.Keystream

/-! ### Lengths -/

/-- What a frame has in its body besides its data. -/
def overhead (chacha : Bool) (frame : ScreenFrame) : Nat :=
  if frame.header.opcode = .videoFrame ∧ chacha = true then ScreenFrameCodec.chachaTagLen else 0

/-- The body keeps to the limit of the decoder. -/
def Fits (chacha : Bool) (frame : ScreenFrame) : Prop :=
  frame.data.length + overhead chacha frame ≤ ScreenFrameCodec.maxPayloadSize

/-- The frame with the length of its data in its header. -/
def asRead (frame : ScreenFrame) : ScreenFrame :=
  { frame with header := { frame.header with bodySize := .ofNat frame.data.length } }

theorem maxPayloadSize_lt : ScreenFrameCodec.maxPayloadSize < 2 ^ 32 := by
  unfold ScreenFrameCodec.maxPayloadSize
  omega

theorem Fits.length_le {chacha : Bool} {frame : ScreenFrame} (h : Fits chacha frame) :
    frame.data.length ≤ maxPayloadBytes := by
  have hsmall : ScreenFrameCodec.maxPayloadSize ≤ maxPayloadBytes := by
    unfold ScreenFrameCodec.maxPayloadSize maxPayloadBytes
    omega
  unfold Fits at h
  omega

/-! ### The parts of what is sent -/

def sentHeader (chacha : Bool) (frame : ScreenFrame) : ScreenFrameHeader :=
  { frame.header with bodySize := .ofNat (frame.data.length + overhead chacha frame) }

/-- The AES stream on the data. -/
def aesBody (backend : Backend) (cipher : Aes128Ctr) (data : List UInt8) : List UInt8 :=
  xorBytes data (window (backend.aesKeystream cipher.key cipher.iv) cipher.position data.length)

def sentBody (backend : Backend) (sender : ScreenFrameCodec) (frame : ScreenFrame) : List UInt8 :=
  match frame.header.opcode, sender.crypto with
  | .videoFrame, some (.chacha _ writeCipher _ counterTx) =>
    wire (keyOf writeCipher) frame.data (sentHeader true frame).write counterTx
  | .videoFrame, some (.aesCtr _ writeCipher) => aesBody backend writeCipher frame.data
  | _, _ => frame.data

/-- The sender behind the frame. -/
def sentBy (sender : ScreenFrameCodec) (frame : ScreenFrame) : ScreenFrameCodec :=
  match frame.header.opcode, sender.crypto with
  | .videoFrame, some (.chacha readCipher writeCipher counterRx counterTx) =>
    let writeCipher :=
      if sender.flags.preferPrefetchChacha then writeCipher.resetPrefetch else writeCipher
    { sender with crypto := some (.chacha readCipher writeCipher counterRx (counterTx + 1)) }
  | .videoFrame, some (.aesCtr readCipher writeCipher) =>
    { sender with
      crypto := some (.aesCtr readCipher
        { writeCipher with position := writeCipher.position + frame.data.length }) }
  | _, _ => sender

variable {backend : Backend} {sender : ScreenFrameCodec} {frame : ScreenFrame}

theorem sentHeader_of_plain (chacha : Bool)
    (h : ¬(frame.header.opcode = .videoFrame ∧ chacha = true)) :
    sentHeader chacha frame = (asRead frame).header := by
  unfold sentHeader overhead
  rw [if_neg h]
  rfl

/-- The frame is sent under a cipher. -/
def Encrypted (sender : ScreenFrameCodec) (frame : ScreenFrame) : Prop :=
  frame.header.opcode = .videoFrame ∧ sender.crypto.isSome = true

theorem isSome_of_isChacha (h : sender.isChacha = true) : sender.crypto.isSome = true := by
  unfold ScreenFrameCodec.isChacha at h
  cases hcrypto : sender.crypto with
  | none =>
    rw [hcrypto] at h
    cases h
  | some crypto => rfl

section Chacha

variable {readCipher writeCipher : HomeKitCipher} {counterRx counterTx : HomeKitChaChaNonce}
  (hcrypto : sender.crypto = some (.chacha readCipher writeCipher counterRx counterTx))

include hcrypto

theorem isChacha_chacha : sender.isChacha = true := by
  unfold ScreenFrameCodec.isChacha
  rw [hcrypto]

variable (hvideo : frame.header.opcode = .videoFrame)

include hvideo

theorem sentBody_chacha : sentBody backend sender frame =
    wire (keyOf writeCipher) frame.data (sentHeader true frame).write counterTx := by
  unfold sentBody
  rw [hvideo, hcrypto]

theorem encode_chacha (hstandard : Standard backend) (hfits : Fits true frame) :
    sender.encode backend frame =
      .ok (sentBy sender frame, (sentHeader true frame).write ++ sentBody backend sender frame) := by
  have hsealed := fun aad nonce =>
    @encrypt_eq backend writeCipher frame.data aad nonce hstandard hfits.length_le
  have hsize : UInt32.ofNat frame.data.length + UInt32.ofNat ScreenFrameCodec.chachaTagLen =
      .ofNat (frame.data.length + overhead true frame) := by
    rw [overhead, if_pos ⟨hvideo, rfl⟩, UInt32.ofNat_add]
  have hsent : ({ bodySize := .ofNat (frame.data.length + overhead true frame)
                  opcode := .videoFrame
                  smallParam := frame.header.smallParam
                  params := frame.header.params } : ScreenFrameHeader) = sentHeader true frame := by
    unfold sentHeader
    rw [← hvideo]
  rw [sentBody_chacha hcrypto hvideo]
  unfold ScreenFrameCodec.encode sentBy wire withTag
  simp only [hvideo, hcrypto, HomeKitChaChaNonce.advance, hsealed, hsize]
  rw [hsent, List.append_assoc]

end Chacha

section Aes

variable {readCipher writeCipher : Aes128Ctr}
  (hcrypto : sender.crypto = some (.aesCtr readCipher writeCipher))

include hcrypto

theorem isChacha_aes : sender.isChacha = false := by
  unfold ScreenFrameCodec.isChacha
  rw [hcrypto]

variable (hvideo : frame.header.opcode = .videoFrame)

include hvideo

theorem sentBody_aes :
    sentBody backend sender frame = aesBody backend writeCipher frame.data := by
  unfold sentBody
  rw [hvideo, hcrypto]

theorem encode_aes : sender.encode backend frame =
    .ok (sentBy sender frame, (asRead frame).header.write ++ sentBody backend sender frame) := by
  have hsent : ({ bodySize := .ofNat frame.data.length
                  opcode := .videoFrame
                  smallParam := frame.header.smallParam
                  params := frame.header.params } : ScreenFrameHeader) = (asRead frame).header := by
    unfold asRead
    rw [← hvideo]
  rw [sentBody_aes hcrypto hvideo]
  unfold ScreenFrameCodec.encode sentBy
  simp only [hvideo, hcrypto, Aes128Ctr.applyKeystream]
  rw [hsent]
  rfl

end Aes

section Plain

variable (hplain : ¬Encrypted sender frame)

include hplain

/-- The other frames pass as they are. -/
theorem sent_plain :
    sentBody backend sender frame = frame.data ∧ sentBy sender frame = sender ∧
      sender.encode backend frame = .ok (sender, (asRead frame).write) := by
  obtain ⟨header, crypto, flags⟩ := sender
  obtain ⟨⟨bodySize, opcode, smallParam, params⟩, data⟩ := frame
  cases crypto with
  | none => cases opcode <;> exact ⟨rfl, rfl, rfl⟩
  | some crypto =>
    cases opcode with
    | videoFrame => exact absurd ⟨rfl, rfl⟩ hplain
    | _ => exact ⟨rfl, rfl, rfl⟩

theorem sentHeader_plain : sentHeader sender.isChacha frame = (asRead frame).header :=
  sentHeader_of_plain _ fun h => hplain ⟨h.1, isSome_of_isChacha h.2⟩

end Plain

/-- **What `encode` puts out.** -/
theorem encode_eq_sent (hstandard : Standard backend) (hfits : Fits sender.isChacha frame) :
    sender.encode backend frame =
      .ok (sentBy sender frame,
        (sentHeader sender.isChacha frame).write ++ sentBody backend sender frame) := by
  by_cases hencrypted : Encrypted sender frame
  · obtain ⟨hvideo, hsome⟩ := hencrypted
    obtain ⟨crypto, hcrypto⟩ := Option.isSome_iff_exists.mp hsome
    cases crypto with
    | chacha readCipher writeCipher counterRx counterTx =>
      rw [isChacha_chacha hcrypto] at hfits ⊢
      exact encode_chacha hcrypto hvideo hstandard hfits
    | aesCtr readCipher writeCipher =>
      rw [isChacha_aes hcrypto, sentHeader_of_plain false fun h => Bool.false_ne_true h.2]
      exact encode_aes hcrypto hvideo
  · obtain ⟨hbody, hnext, hencode⟩ := @sent_plain backend sender frame hencrypted
    rw [hencode, hbody, hnext, sentHeader_plain hencrypted]
    rfl

theorem isChacha_sentBy : (sentBy sender frame).isChacha = sender.isChacha := by
  obtain ⟨header, crypto, flags⟩ := sender
  obtain ⟨⟨bodySize, opcode, smallParam, params⟩, data⟩ := frame
  cases crypto with
  | none => cases opcode <;> rfl
  | some crypto => cases crypto <;> cases opcode <;> rfl

/-- The length in the header is that of the body. -/
theorem length_sentBody : (sentBody backend sender frame).length =
    frame.data.length + overhead sender.isChacha frame := by
  by_cases hencrypted : Encrypted sender frame
  · obtain ⟨hvideo, hsome⟩ := hencrypted
    obtain ⟨crypto, hcrypto⟩ := Option.isSome_iff_exists.mp hsome
    cases crypto with
    | chacha readCipher writeCipher counterRx counterTx =>
      rw [sentBody_chacha hcrypto hvideo, length_wire, overhead,
        if_pos ⟨hvideo, isChacha_chacha hcrypto⟩]
      rfl
    | aesCtr readCipher writeCipher =>
      rw [sentBody_aes hcrypto hvideo, aesBody, length_xorBytes_window, overhead,
        if_neg fun h => by rw [isChacha_aes hcrypto] at h; exact Bool.false_ne_true h.2]
      rfl
  · rw [(@sent_plain backend sender frame hencrypted).1, overhead,
      if_neg fun h => hencrypted ⟨h.1, isSome_of_isChacha h.2⟩]
    rfl

theorem toNat_bodySize {chacha : Bool} (h : Fits chacha frame) :
    (sentHeader chacha frame).bodySize.toNat = frame.data.length + overhead chacha frame :=
  UInt32.toNat_ofNat_of_lt' (Nat.lt_of_le_of_lt h maxPayloadSize_lt)

end Catplay.Analysis.Screen
