import Catplay.Analysis.Hap.Sealing
import Catplay.Library.StreamDecoder
import Catplay.Model.Rtsp.TransportCodec

/-!
# The encrypted control channel

What is encrypted in place is the chunks sealed one after the other (`encodeMtuInPlace_eq`), and
in whatever pieces they come in, the other side has them back (`channel_lossless`).
-/

set_option autoImplicit false

namespace Catplay.Analysis.Rtsp

open Catplay.Library Catplay.Library.Buffer Catplay.Library.StreamDecoder Catplay.Model.Rtsp
open Catplay.Model.Rtsp.CipherCodec

/-! ## The cipher behind it -/

/-- The fast cipher with a key. -/
def fastCipher (key : Catplay.Model.Hap.Key) : Cipher where
  encrypt data aad nonce :=
    ((Hap.sealed key data aad (.ofNat nonce)).1, (Hap.sealed key data aad (.ofNat nonce)).2.toList)
  decrypt body aad nonce :=
    (Hap.plaintext ((Catplay.Model.Hap.HomeKitCipherFast.new key).decrypt body aad
      (.ofNat nonce))).2.toOption

/-- The lengths that a cipher keeps to; what it seals it opens. -/
structure Seals (cipher : Cipher) : Prop where
  ciphertext : ∀ data aad nonce, (cipher.encrypt data aad nonce).1.length = data.length
  tag : ∀ data aad nonce, (cipher.encrypt data aad nonce).2.length = 16
  opens : ∀ data aad nonce, data.length < 65536 →
    cipher.decrypt ((cipher.encrypt data aad nonce).1 ++ (cipher.encrypt data aad nonce).2) aad
      nonce = some data

variable {key : Catplay.Model.Hap.Key} {aad body data : List UInt8} {nonce : Nat}

theorem fastCipher_encrypt : (fastCipher key).encrypt data aad nonce =
    ((Hap.sealed key data aad (.ofNat nonce)).1,
      (Hap.sealed key data aad (.ofNat nonce)).2.toList) := rfl

theorem fastCipher_decrypt : (fastCipher key).decrypt body aad nonce = some data ↔
    data.length ≤ Catplay.Model.Hap.maxPayloadBytes ∧
      body = Hap.wire key data aad (.ofNat nonce) := by
  rw [← Hap.decrypt_ok_iff]
  unfold fastCipher
  dsimp only
  cases (Hap.plaintext _).2 <;> simp [Except.toOption]

theorem seals_fastCipher (key : Catplay.Model.Hap.Key) : Seals (fastCipher key) where
  ciphertext data aad nonce := by
    rw [fastCipher_encrypt, Hap.length_sealed_fst]
  tag data aad nonce := by
    rw [fastCipher_encrypt, Vector.length_toList]
  opens data aad nonce h := by
    rw [fastCipher_encrypt, fastCipher_decrypt]
    refine ⟨?_, ?_⟩
    · unfold Catplay.Model.Hap.maxPayloadBytes
      omega
    · rw [Hap.wire, Hap.withTag]

/-! ## Encrypting in place -/

/-- A chunk on the wire: its length, the ciphertext and the tag. -/
def sealedChunk (cipher : Cipher) (counter : Nat) (chunk : List UInt8) : List UInt8 :=
  leBytes chunk.length ++ (cipher.encrypt chunk (leBytes chunk.length) counter).1 ++
    (cipher.encrypt chunk (leBytes chunk.length) counter).2

def sealedChunks (cipher : Cipher) : Nat → List (List UInt8) → List UInt8
  | _, [] => []
  | counter, chunk :: chunks =>
    sealedChunk cipher counter chunk ++ sealedChunks cipher (counter + 1) chunks

/-- The chunks as the loop takes them, from the back: the first one may be short. -/
def chunksFromBack (maxPlaintext : Nat) : Nat → List UInt8 → List (List UInt8)
  | 0, _ => []
  | count + 1, data =>
    chunksFromBack maxPlaintext count (data.take (data.length - maxPlaintext)) ++
      [data.drop (data.length - maxPlaintext)]

variable {codec : CipherCodec} {cipher : Cipher} {data : List UInt8} {m : Nat}

theorem sealedChunks_append (counter : Nat) (front back : List (List UInt8)) :
    sealedChunks cipher counter (front ++ back) =
      sealedChunks cipher counter front ++ sealedChunks cipher (counter + front.length) back := by
  induction front generalizing counter with
  | nil => rfl
  | cons first front ih =>
    simp only [List.cons_append, sealedChunks, ih, List.append_assoc, List.length_cons]
    rw [Nat.add_assoc, Nat.add_comm 1]

theorem chunksFromBack_spec (m count : Nat) (data : List UInt8) (h : data.length ≤ m * count) :
    (chunksFromBack m count data).length = count ∧ (chunksFromBack m count data).flatten = data ∧
      ∀ chunk ∈ chunksFromBack m count data, chunk.length ≤ m := by
  induction count generalizing data with
  | zero => simpa [chunksFromBack] using (List.length_eq_zero_iff.mp (Nat.le_zero.mp h)).symm
  | succ count ih =>
    rw [Nat.mul_succ] at h
    obtain ⟨hlength, hflatten, hle⟩ := ih (data.take (data.length - m))
      (by rw [List.length_take]; omega)
    refine ⟨by simp [chunksFromBack, hlength], by simp [chunksFromBack, hflatten], ?_⟩
    intro chunk hmem
    rcases List.mem_append.mp hmem with hmem | hmem
    · exact hle chunk hmem
    · rw [List.mem_singleton.mp hmem, List.length_drop]
      omega

theorem overwrite_append {front old bytes back : List UInt8} (h : bytes.length = old.length) :
    overwrite (front ++ (old ++ back)) front.length bytes = front ++ (bytes ++ back) := by
  simp [overwrite, h, List.drop_append]

theorem exists_cut (n : Nat) (l : List UInt8) (h : n ≤ l.length) :
    ∃ front back, l = front ++ back ∧ front.length = n :=
  ⟨l.take n, l.drop n, (List.take_append_drop n l).symm, List.length_take_of_le h⟩

/-- The place of a sealed chunk. -/
theorem exists_place {start len : Nat} (h : start + (len + 18) ≤ data.length) :
    ∃ front aad old tag back : List UInt8, data = front ++ (aad ++ (old ++ (tag ++ back))) ∧
      front.length = start ∧ aad.length = 2 ∧ old.length = len ∧ tag.length = 16 := by
  obtain ⟨front, rest, rfl, hfront⟩ := exists_cut start data (by omega)
  rw [List.length_append] at h
  obtain ⟨aad, rest, rfl, haad⟩ := exists_cut 2 rest (by omega)
  rw [List.length_append] at h
  obtain ⟨old, rest, rfl, hold⟩ := exists_cut len rest (by omega)
  rw [List.length_append] at h
  obtain ⟨tag, back, rfl, htag⟩ := exists_cut 16 rest (by omega)
  exact ⟨front, aad, old, tag, back, rfl, hfront, haad, hold, htag⟩

/-- **One round** of the loop: the chunk that is last in the plaintext is sealed behind the room for
the others. No plaintext in front of it is overwritten. -/
theorem sealChunk_eq (h : Seals codec.writeCipher) {idx plain : Nat}
    (hend : plain + 18 * (idx + 1) ≤ data.length) :
    ∃ data', sealChunk codec m idx plain (plain + 18 * (idx + 1)) data =
        (data', plain - m, plain - m + 18 * idx) ∧
      data'.length = data.length ∧ data'.take (plain - m) = data.take (plain - m) ∧
      data'.drop (plain - m + 18 * idx) =
        sealedChunk codec.writeCipher (codec.counterTx + idx)
          ((data.take plain).drop (plain - m)) ++ data.drop (plain + 18 * (idx + 1)) := by
  generalize hchunk : (data.take plain).drop (plain - m) = chunk
  have hlen : chunk.length = min m plain := by
    rw [← hchunk, List.length_drop, List.length_take]
    omega
  obtain ⟨front, aad, old, tag, back, rfl, hfront, htwo, hold, htag⟩ :=
    @exists_place data (plain - m + 18 * idx) chunk.length (by omega)
  have haad : aad.length = (leBytes chunk.length).length := htwo
  have hback : plain + 18 * (idx + 1) = (front ++ (aad ++ (old ++ tag))).length := by
    simp only [List.length_append, hfront, haad, hold, htag]
    omega
  unfold sealChunk
  extract_lets len rest start payload tagStart label moved labelled
  have hcount : len = chunk.length := hlen.symm
  have hrest : rest = plain - m := by omega
  have hplain : rest + len = plain := by omega
  have hstart : start = front.length := by
    show plain + 18 * (idx + 1) - (min m plain + 18) = _
    omega
  have hpayload : payload = (front ++ leBytes chunk.length).length := by
    rw [List.length_append, ← hstart]
    rfl
  have hlabel : label = leBytes chunk.length := congrArg leBytes hcount
  have hmoved : moved = front ++ aad ++ (chunk ++ (tag ++ back)) := by
    show overwrite _ payload (((front ++ _).take (rest + len)).drop rest) = _
    rw [hplain, hrest, hchunk, hpayload, List.length_append, ← haad, ← List.length_append,
      ← List.append_assoc]
    exact overwrite_append hold.symm
  have hlabelled : labelled = front ++ leBytes chunk.length ++ (chunk ++ (tag ++ back)) := by
    show overwrite moved start label = _
    rw [hmoved, hstart, hlabel, List.append_assoc, List.append_assoc]
    exact overwrite_append haad.symm
  have hread : (labelled.take (payload + len)).drop payload = chunk := by
    rw [hlabelled, hpayload, hcount, List.take_length_add_append, List.take_left, List.drop_left]
  rw [hread, hlabel]
  generalize hsealed :
    codec.writeCipher.encrypt chunk (leBytes chunk.length) (codec.counterTx + idx) = sealed
  have hciphertext : sealed.1.length = chunk.length := hsealed ▸ h.ciphertext _ _ _
  have htagged : sealed.2.length = tag.length := htag ▸ hsealed ▸ h.tag _ _ _
  have hall : overwrite (overwrite labelled payload sealed.1) tagStart sealed.2 =
      front ++ (leBytes chunk.length ++ sealed.1 ++ sealed.2 ++ back) := by
    have htagStart : tagStart = (front ++ leBytes chunk.length ++ sealed.1).length := by
      rw [List.length_append, hciphertext, ← hpayload, ← hcount]
    rw [hlabelled, htagStart, hpayload, overwrite_append hciphertext, ← List.append_assoc _ sealed.1,
      overwrite_append htagged]
    simp only [List.append_assoc]
  refine ⟨_, Prod.ext hall (Prod.ext hrest (hstart.trans hfront)), ?_, ?_, ?_⟩
  · simp only [List.length_append, haad, hold, htag, hciphertext, htagged]
    omega
  · rw [List.take_append_of_le_length (by omega), List.take_append_of_le_length (by omega)]
  · have hsplit : front ++ (aad ++ (old ++ (tag ++ back))) =
        front ++ (aad ++ (old ++ tag)) ++ back := by
      simp only [List.append_assoc]
    rw [← hfront, List.drop_left, hback, hsplit, List.drop_left, sealedChunk, hsealed]

/-- **The loop** seals the plaintext, chunk by chunk, in front of what is sealed already. -/
theorem sealChunks_eq (h : Seals codec.writeCipher) {count plain : Nat}
    (hend : plain + 18 * count ≤ data.length) (hcount : plain ≤ m * count) :
    sealChunks codec m count plain (plain + 18 * count) data =
      sealedChunks codec.writeCipher codec.counterTx (chunksFromBack m count (data.take plain)) ++
        data.drop (plain + 18 * count) := by
  induction count generalizing plain data with
  | zero =>
    obtain rfl : plain = 0 := by simpa using hcount
    rfl
  | succ count ih =>
    rw [Nat.mul_succ] at hcount
    obtain ⟨data', hstep, hlength, hfront, hback⟩ := @sealChunk_eq codec data m h count plain hend
    have hplain : (data.take plain).length = plain := List.length_take_of_le (by omega)
    unfold sealChunks
    rw [hstep]
    dsimp only
    rw [ih (by omega) (by omega), hback, hfront]
    rw [chunksFromBack, hplain, List.take_take, Nat.min_eq_left (Nat.sub_le plain m),
      sealedChunks_append, (chunksFromBack_spec m count _ (by rw [List.length_take]; omega)).1,
      List.append_assoc, sealedChunks, sealedChunks, List.append_nil]

/-- **Encrypting in place** gives the chunks sealed one by one, each with the next nonce. -/
theorem encodeMtuInPlace_eq (h : Seals codec.writeCipher) {mtu : Nat} (hmtu : 18 < mtu)
    (hmax : mtu ≤ 65553) (data : List UInt8) :
    ∃ chunks, codec.encodeMtuInPlace data mtu =
        .ok ({ codec with counterTx := codec.counterTx + chunks.length },
          sealedChunks codec.writeCipher codec.counterTx chunks) ∧
      chunks.flatten = data ∧ ∀ chunk ∈ chunks, chunk.length ≤ mtu - 18 := by
  unfold encodeMtuInPlace overheadBytes
  dsimp only
  rw [if_neg (by omega), if_neg (by omega)]
  cases data with
  | nil => exact ⟨[], rfl, rfl, by simp⟩
  | cons b data =>
    rw [if_neg (by simp)]
    generalize b :: data = data
    generalize hcount : (data.length + (mtu - 18) - 1) / (mtu - 18) = count
    have hcover : data.length ≤ (mtu - 18) * count := by
      have := Nat.lt_mul_div_succ (data.length + (mtu - 18) - 1) (Nat.sub_pos_of_lt hmtu)
      rw [hcount, Nat.mul_succ] at this
      omega
    obtain ⟨hlength, hflatten, hle⟩ := chunksFromBack_spec (mtu - 18) count data hcover
    refine ⟨chunksFromBack (mtu - 18) count data, ?_, hflatten, hle⟩
    rw [Nat.mul_comm count, Nat.add_sub_cancel_left, sealChunks_eq h (by simp) hcover,
      List.take_left, hlength, List.drop_of_length_le (by simp), List.append_nil]

/-! ## Decrypting -/

/-- `decode` as a decoder of a stream. -/
def cipherOutcome (codec : CipherCodec) (src : List UInt8) :
    Outcome CipherCodec (List UInt8) UInt8 CipherError :=
  match codec.decode src with
  | (.ok (some plaintext), codec, rest) => .item plaintext codec rest
  | (.ok none, codec, rest) => .more codec rest
  | (.error e, _, _) => .error e

theorem fromLeBytes_append {src : List UInt8} (h : ¬ src.length < 2) (later : List UInt8) :
    fromLeBytes (src ++ later) 0 = fromLeBytes src 0 := by
  unfold fromLeBytes
  rw [List.getElem?_append_left (by omega), List.getElem?_append_left (by omega)]

variable {src : List UInt8} {len : Nat}

theorem outcome_waits (hfrom : 2 ≤ src.length → fromLeBytes src 0 = len ∧ len ≤ 1422)
    (h : src.length < len + 18 ∨ src.length < 2) : cipherOutcome codec src = .more codec src := by
  unfold cipherOutcome decode
  by_cases hshort : src.length < 2
  · rw [if_pos hshort]
  · obtain ⟨hlen, hlimit⟩ := hfrom (Nat.le_of_not_lt hshort)
    simp only [if_neg hshort, hlen, mtuMax, overheadBytes]
    rw [if_neg (by omega), if_pos (by omega)]

theorem outcome_tooBig (hshort : 2 ≤ src.length) (h : fromLeBytes src 0 > 1422) :
    cipherOutcome codec src = .error (.payloadTooBig (fromLeBytes src 0) 1422) := by
  unfold cipherOutcome decode
  rw [if_neg (Nat.not_lt.mpr hshort)]
  dsimp only
  rw [if_pos (show fromLeBytes src 0 > mtuMax - overheadBytes from h)]
  rfl

/-- The first chunk is there as a whole. -/
theorem decode_ready (hfrom : fromLeBytes src 0 = len) (hlimit : len ≤ 1422)
    (hwhole : len + 18 ≤ src.length) :
    codec.decode src =
      ((codec.readCipher.decrypt ((src.take (len + 18)).drop 2) (src.take 2) codec.counterRx).elim
          (.error .invalidSignature) fun plaintext => .ok (some (plaintext.take len)),
        { codec with counterRx := codec.counterRx + 1 }, src.drop (len + 18)) := by
  have haad : (src.take (len + 18)).take 2 = src.take 2 := by
    rw [List.take_take, Nat.min_eq_left (by omega)]
  unfold decode
  rw [if_neg (by omega)]
  simp only [hfrom, mtuMax, overheadBytes, headerLen]
  rw [if_neg (by omega), if_neg (by omega), haad]
  cases codec.readCipher.decrypt ((src.take (len + 18)).drop 2) (src.take 2) codec.counterRx <;> rfl

/-- **A call** waits, fails, or takes a chunk, whatever comes behind what it looks at. -/
theorem cipherOutcome_cases (codec : CipherCodec) (src : List UInt8) :
    cipherOutcome codec src = .more codec src ∨
      (∃ e, ∀ later, cipherOutcome codec (src ++ later) = .error e) ∨
      ∃ plaintext codec' rest, rest.length + 18 ≤ src.length ∧ ∀ later,
        cipherOutcome codec (src ++ later) = .item plaintext codec' (rest ++ later) := by
  by_cases hshort : src.length < 2
  · exact .inl (@outcome_waits codec src 0 (fun h => by omega) (.inr hshort))
  have hfrom := fromLeBytes_append hshort
  have hlong : ∀ later, src.length ≤ (src ++ later).length := by simp
  by_cases hbig : fromLeBytes src 0 > 1422
  · refine .inr (.inl ⟨.payloadTooBig (fromLeBytes src 0) 1422, fun later => ?_⟩)
    rw [← hfrom later] at hbig ⊢
    exact outcome_tooBig (Nat.le_trans (Nat.le_of_not_lt hshort) (hlong later)) hbig
  generalize hlen : fromLeBytes src 0 = len at hfrom hbig
  by_cases hwait : src.length < len + 18
  · exact .inl (outcome_waits (fun _ => ⟨hlen, Nat.le_of_not_lt hbig⟩) (.inl hwait))
  have hready : ∀ later, codec.decode (src ++ later) = _ := fun later =>
    decode_ready (hfrom later) (Nat.le_of_not_lt hbig) (Nat.le_trans (by omega) (hlong later))
  have htake : ∀ later : List UInt8, ∀ n ≤ len + 18, (src ++ later).take n = src.take n :=
    fun _ n hn => List.take_append_of_le_length (by omega)
  have hdrop : ∀ later : List UInt8, (src ++ later).drop (len + 18) = src.drop (len + 18) ++ later :=
    fun _ => List.drop_append_of_le_length (by omega)
  refine .inr ?_
  unfold cipherOutcome
  simp only [hready, htake _ _ (Nat.le_refl _), htake _ 2 (Nat.le_add_left 2 _), hdrop]
  cases codec.readCipher.decrypt ((src.take (len + 18)).drop 2) (src.take 2) codec.counterRx with
  | none => exact .inl ⟨_, fun _ => rfl⟩
  | some plaintext =>
    refine .inr ⟨_, _, src.drop (len + 18), ?_, fun _ => rfl⟩
    rw [List.length_drop]
    omega

theorem lawful_cipherOutcome : Lawful cipherOutcome := by
  have hsplit : ∀ codec src, cipherOutcome codec src = .more codec src ∨
      (∃ e, cipherOutcome codec src = .error e ∧
        ∀ later, cipherOutcome codec (src ++ later) = .error e) ∨
      ∃ a codec' rest, cipherOutcome codec src = .item a codec' rest ∧ rest.length < src.length ∧
        ∀ later, cipherOutcome codec (src ++ later) = .item a codec' (rest ++ later) := by
    intro codec src
    rcases cipherOutcome_cases codec src with hmore | ⟨e, hfail⟩ | ⟨a, codec', rest, hlt, hitem⟩
    · exact .inl hmore
    · exact .inr (.inl ⟨e, by simpa using hfail [], hfail⟩)
    · exact .inr (.inr ⟨a, codec', rest, by simpa using hitem [], by omega, hitem⟩)
  constructor <;> intro codec src
  all_goals
    rcases hsplit codec src with hmore | ⟨e, hnow, hfail⟩ | ⟨a, codec', rest, hnow, hlt, hitem⟩
    all_goals simp_all

/-- **A sealed chunk** is taken off the front. -/
theorem cipherOutcome_sealed (hcodec : Seals codec.readCipher) {chunk : List UInt8}
    (h : chunk.length ≤ 1422) (later : List UInt8) :
    cipherOutcome codec (sealedChunk codec.readCipher codec.counterRx chunk ++ later) =
      .item chunk { codec with counterRx := codec.counterRx + 1 } later := by
  have hopen := hcodec.opens chunk (leBytes chunk.length) codec.counterRx (by omega)
  have hlength := hcodec.ciphertext chunk (leBytes chunk.length) codec.counterRx
  have htag := hcodec.tag chunk (leBytes chunk.length) codec.counterRx
  unfold sealedChunk cipherOutcome
  generalize codec.readCipher.encrypt chunk (leBytes chunk.length) codec.counterRx = sealed at *
  have hfrom : fromLeBytes (leBytes chunk.length ++ sealed.1 ++ sealed.2 ++ later) 0 =
      chunk.length := by
    simp [leBytes, fromLeBytes]
    omega
  have hfront : (leBytes chunk.length ++ sealed.1 ++ sealed.2).length = chunk.length + 18 := by
    simp [leBytes, hlength, htag]
  have hready := @decode_ready codec _ _ hfrom h (by rw [List.length_append]; omega)
  have hbody : codec.readCipher.decrypt ((leBytes chunk.length ++ sealed.1 ++ sealed.2).drop 2)
      ((leBytes chunk.length ++ sealed.1 ++ sealed.2 ++ later).take 2) codec.counterRx =
        some chunk := hopen
  rw [← hfront, List.take_left, List.drop_left, hbody] at hready
  rw [hready, Option.elim_some, List.take_length]

theorem written_sealed {chunks : List (List UInt8)} {codec : CipherCodec}
    (hcodec : Seals codec.readCipher) (h : ∀ chunk ∈ chunks, chunk.length ≤ 1422) :
    Written cipherOutcome codec chunks (sealedChunks codec.readCipher codec.counterRx chunks)
      { codec with counterRx := codec.counterRx + chunks.length } := by
  induction chunks generalizing codec with
  | nil => exact .nil _
  | cons chunk chunks ih =>
    obtain ⟨hchunk, hchunks⟩ := List.forall_mem_cons.mp h
    have hrest := @ih { codec with counterRx := codec.counterRx + 1 } hcodec hchunks
    rw [Nat.add_assoc, Nat.add_comm 1] at hrest
    exact .cons (cipherOutcome_sealed hcodec hchunk) hrest

/-- Batches that are encrypted one after the other, in what they come to on the wire. -/
def encodeAll : CipherCodec → List (List UInt8) → Except CipherError (CipherCodec × List UInt8)
  | codec, [] => .ok (codec, [])
  | codec, data :: batches => do
    let first ← codec.encodeInPlace data
    let rest ← encodeAll first.1 batches
    pure (rest.1, first.2 ++ rest.2)

theorem encodeAll_eq (h : Seals codec.writeCipher) (batches : List (List UInt8)) :
    ∃ chunks, encodeAll codec batches =
        .ok ({ codec with counterTx := codec.counterTx + chunks.length },
          sealedChunks codec.writeCipher codec.counterTx chunks) ∧
      chunks.flatten = batches.flatten ∧ ∀ chunk ∈ chunks, chunk.length ≤ 1422 := by
  induction batches generalizing codec with
  | nil => exact ⟨[], rfl, rfl, by simp⟩
  | cons data batches ih =>
    obtain ⟨chunks, hfirst, hflatten, hle⟩ := encodeMtuInPlace_eq h (by decide : 18 < 1440)
      (by decide) data
    obtain ⟨more, hrest, hmore, hshort⟩ :=
      @ih { codec with counterTx := codec.counterTx + chunks.length } h
    refine ⟨chunks ++ more, ?_, by simp [hflatten, hmore], ?_⟩
    · have hencode : codec.encodeInPlace data = _ := hfirst
      rw [encodeAll, hencode, sealedChunks_append, List.length_append, ← Nat.add_assoc]
      show (encodeAll _ batches >>= fun rest => pure (rest.1, _ ++ rest.2)) = _
      rw [hrest]
      rfl
    · simpa [or_imp, forall_and] using ⟨hle, hshort⟩

/-- **The encrypted channel is lossless.** Whatever batches one side encrypts in place, what is sent
is their chunks, each sealed with the next nonce. In whatever pieces that reaches the other side, it
decrypts the same chunks, and both sides have counted as many. -/
theorem channel_lossless (key : Catplay.Model.Hap.Key) (read write : Cipher) (rx tx counter : Nat)
    (batches : List (List UInt8)) :
    ∃ chunks, chunks.flatten = batches.flatten ∧
      encodeAll ⟨read, fastCipher key, rx, counter⟩ batches =
        .ok (⟨read, fastCipher key, rx, counter + chunks.length⟩,
          sealedChunks (fastCipher key) counter chunks) ∧
      ∀ calls, received calls = sealedChunks (fastCipher key) counter chunks →
        finish cipherOutcome (run cipherOutcome ⟨fastCipher key, write, counter, tx⟩ [] calls) =
          (chunks, .ok (⟨fastCipher key, write, counter + chunks.length, tx⟩, [])) := by
  have hseals := seals_fastCipher key
  obtain ⟨chunks, hencoded, hflatten, hle⟩ :=
    @encodeAll_eq ⟨read, fastCipher key, rx, counter⟩ hseals batches
  refine ⟨chunks, hflatten, hencoded, fun calls hcalls => ?_⟩
  have hwritten := @written_sealed chunks ⟨fastCipher key, write, counter, tx⟩ hseals hle
  have hall := lawful_cipherOutcome.decodeAll_written hwritten []
  rw [List.append_nil] at hall
  rw [lawful_cipherOutcome.finish_run, List.nil_append, hcalls]
  refine hall.trans ?_
  show (chunks ++ [], _) = _
  rw [List.append_nil]
  rfl

end Catplay.Analysis.Rtsp
