import Catplay.Analysis.Hap.Streams

/-!
# Decryption of a body that comes in

Both ciphers read, chunk by chunk, what `encrypt` makes of the data. The fast one decrypts all but
the last 16 bytes that are there, as they could be the tag; the other one waits for the whole body.
-/

set_option autoImplicit false

namespace Catplay.Analysis.Hap

open Catplay.Model.Hap Catplay.Library.Keystream

/-! ## What is on the wire -/

/-- ChaCha20-Poly1305 of the data. -/
def sealed (key : Key) (data aad : List UInt8) (nonce : HomeKitChaChaNonce) : List UInt8 × Tag :=
  (HomeKitCipherFast.new key).encrypt data aad nonce

/-- The ciphertext with any tag behind it. -/
def withTag (key : Key) (data aad : List UInt8) (nonce : HomeKitChaChaNonce) (tag : Tag) :
    List UInt8 :=
  (sealed key data aad nonce).1 ++ tag.toList

def wire (key : Key) (data aad : List UInt8) (nonce : HomeKitChaChaNonce) : List UInt8 :=
  withTag key data aad nonce (sealed key data aad nonce).2

/-- **The libraries do what they say**: ring seals with ChaCha20-Poly1305 what is not too long, and
opens what it has sealed. -/
structure Standard (backend : Backend) : Prop where
  seals : ∀ key nonce aad data, data.length ≤ maxPayloadBytes →
    backend.sealInPlaceSeparateTag key (nonceToBytes nonce) aad data =
      some (sealed key data aad nonce)
  opens : ∀ key nonce aad data, data.length ≤ maxPayloadBytes →
    backend.openInPlace key (nonceToBytes nonce) aad (wire key data aad nonce) = some data

section Wire

variable {key : Key} {data aad : List UInt8} {nonce : HomeKitChaChaNonce} {tag : Tag}

theorem sealed_fst :
    (sealed key data aad nonce).1 =
      xorBytes data (window (payloadByte key (nonceToBytes nonce)) 0 data.length) :=
  applyKeystreamAtOffset_eq key (nonceToBytes nonce) 0 data

@[simp] theorem length_sealed_fst : (sealed key data aad nonce).1.length = data.length := by
  rw [sealed_fst, length_xorBytes_window]

@[simp] theorem length_withTag : (withTag key data aad nonce tag).length = data.length + 16 := by
  rw [withTag, List.length_append, length_sealed_fst, Vector.length_toList]

@[simp] theorem length_wire : (wire key data aad nonce).length = data.length + 16 := length_withTag

/-- The body with its first `done` bytes decrypted. -/
def overlay (data wire : List UInt8) (done : Nat) : List UInt8 := data.take done ++ wire.drop done

theorem take_withTag {len : Nat} (h : len ≤ data.length) :
    (withTag key data aad nonce tag).take len = (sealed key data aad nonce).1.take len := by
  rw [withTag, List.take_append_of_le_length (by rwa [length_sealed_fst])]

theorem drop_withTag : (withTag key data aad nonce tag).drop data.length = tag.toList := by
  have hlength : (sealed key data aad nonce).1.length = data.length := length_sealed_fst
  rw [withTag, ← hlength, List.drop_append_of_le_length (Nat.le_refl _), List.drop_length,
    List.nil_append]

/-- A stretch of the ciphertext becomes the stretch of the data. -/
theorem decrypts (start : Nat) {end_ : Nat} (hend : end_ ≤ data.length) :
    applyKeystreamAtOffset key (nonceToBytes nonce) start
      (((sealed key data aad nonce).1.take end_).drop start) = (data.take end_).drop start := by
  rw [applyKeystreamAtOffset_eq, sealed_fst, xorBytes_slice _ _ hend, Nat.zero_add,
    length_xorBytes_window]
  exact xorBytes_xorBytes (length_window _ _ _).symm

end Wire

section Overlay

variable {data wire : List UInt8} {done len : Nat}

@[simp] theorem overlay_zero : overlay data wire 0 = wire := rfl

theorem length_overlay (h : done ≤ data.length) (hwire : data.length ≤ wire.length) :
    (overlay data wire done).length = wire.length := by
  rw [overlay, List.length_append, List.length_take, List.length_drop]
  omega

theorem take_overlay (h : done ≤ data.length) (hdone : done ≤ len) :
    (overlay data wire done).take len = data.take done ++ (wire.take len).drop done := by
  have hfront : (data.take done).length = done := by rw [List.length_take, Nat.min_eq_left h]
  rw [overlay, List.take_append, hfront, List.take_of_length_le (by rw [hfront]; exact hdone),
    List.drop_take]

/-- What is there of a body whose first bytes are decrypted. -/
theorem length_take_overlay (h : done ≤ data.length) (hwire : data.length ≤ wire.length)
    (hlen : len ≤ wire.length) : ((overlay data wire done).take len).length = len := by
  rw [List.length_take, length_overlay h hwire, Nat.min_eq_left hlen]

/-- The stretch that is still to be decrypted. -/
theorem stretch_overlay {end_ : Nat} (h : done ≤ data.length) (hdone : done ≤ end_)
    (hend : end_ ≤ len) :
    (((overlay data wire done).take len).take end_).drop done = (wire.take end_).drop done := by
  have hfront : (data.take done).length = done := by rw [List.length_take, Nat.min_eq_left h]
  rw [List.take_take, Nat.min_eq_left hend, take_overlay h hdone,
    List.drop_append_of_le_length (Nat.le_of_eq hfront.symm),
    List.drop_of_length_le (Nat.le_of_eq hfront), List.nil_append]

/-- **One more stretch decrypted.** -/
theorem overlay_step {end_ : Nat} (hdone : done ≤ end_) (hend : end_ ≤ data.length)
    (hlen : end_ ≤ len) :
    ((overlay data wire done).take len).take done ++ (data.take end_).drop done ++
        ((overlay data wire done).take len).drop end_ = (overlay data wire end_).take len := by
  have hstart : done ≤ data.length := Nat.le_trans hdone hend
  have hfront : (data.take done).length = done := by
    rw [List.length_take, Nat.min_eq_left hstart]
  have hcut : data.take done ++ (data.take end_).drop done = data.take end_ := by
    conv_rhs => rw [← List.take_append_drop done (data.take end_)]
    rw [List.take_take, Nat.min_eq_left hdone]
  rw [take_overlay hend hlen, take_overlay hstart (Nat.le_trans hdone hlen),
    List.take_append_of_le_length (Nat.le_of_eq hfront.symm),
    List.take_of_length_le (Nat.le_of_eq hfront), hcut, List.drop_append, hfront,
    List.drop_of_length_le (by rw [hfront]; exact hdone), List.nil_append, List.drop_drop,
    Nat.add_sub_cancel' hdone]

end Overlay

/-! ## The fast cipher -/

section Fast

variable {cipher : HomeKitCipherFast} {data aad : List UInt8} {nonce : HomeKitChaChaNonce}
  {tag : Tag}

/-- The state of the tag behind the first `done` bytes of the ciphertext. -/
def absorbed (cipher : HomeKitCipherFast) (data aad : List UInt8) (nonce : HomeKitChaChaNonce)
    (done : Nat) : ProgressiveTagState :=
  let start := cipher.initializeProgressiveTagState aad (nonceToBytes nonce) (data.length + 16)
    data.length
  { start with
    poly := start.poly.update ((sealed cipher.key data aad nonce).1.take done)
    processedCiphertextLen := done }

/-- There is none until the first byte is decrypted, and never if tags are skipped. -/
def tagStateAt (cipher : HomeKitCipherFast) (data aad : List UInt8) (nonce : HomeKitChaChaNonce)
    (done : Nat) : Option ProgressiveTagState :=
  if cipher.preferPolySkip = true ∨ done = 0 then none
  else some (absorbed cipher data aad nonce done)

theorem partial_initial (cipher : HomeKitCipherFast) (aad : List UInt8) (nonceBytes : NonceBytes)
    (total payload : Nat) :
    Partial (cipher.initializeProgressiveTagState aad nonceBytes total payload).poly :=
  partial_updatePadding (partial_update (partial_new _) _) _

/-- **One more stretch of the ciphertext** under the tag. -/
theorem updateProgressiveTagState_eq (hskip : cipher.preferPolySkip = false) {done end_ : Nat}
    (hstate : cipher.progressiveTagState = tagStateAt cipher data aad nonce done)
    (hdone : done ≤ end_) (hend : end_ ≤ data.length) :
    cipher.updateProgressiveTagState aad (nonceToBytes nonce) (data.length + 16) data.length done
        (((sealed cipher.key data aad nonce).1.take end_).drop done) =
      .ok { cipher with progressiveTagState := some (absorbed cipher data aad nonce end_) } := by
  have hlength : (((sealed cipher.key data aad nonce).1.take end_).drop done).length =
      end_ - done := by
    rw [List.length_drop, List.length_take, length_sealed_fst, Nat.min_eq_left hend]
  have hpoly := partial_initial cipher aad (nonceToBytes nonce) (data.length + 16) data.length
  unfold HomeKitCipherFast.updateProgressiveTagState
  rcases Nat.eq_zero_or_pos done with rfl | hpos
  · -- the first stretch starts the tag
    simp only [if_true]
    rw [if_neg (by
      rintro (h | h | h | h)
      all_goals exact h rfl)]
    rw [hlength, List.drop_zero, Nat.sub_zero]
    exact congrArg _ (congrArg _ (congrArg _ (congrArg _ (Nat.zero_add end_))))
  · have hnot : ¬(cipher.preferPolySkip = true ∨ done = 0) := by
      rw [hskip]
      rintro (h | h)
      · cases h
      · omega
    rw [tagStateAt, if_neg hnot] at hstate
    simp only [if_neg (Nat.ne_of_gt hpos), hstate]
    rw [if_neg (by
      rintro (h | h | h | h)
      all_goals exact h rfl)]
    have hcut : (sealed cipher.key data aad nonce).1.take done ++
        ((sealed cipher.key data aad nonce).1.take end_).drop done =
          (sealed cipher.key data aad nonce).1.take end_ := by
      conv_rhs => rw [← List.take_append_drop done ((sealed cipher.key data aad nonce).1.take end_)]
      rw [List.take_take, Nat.min_eq_left hdone]
    have hupdate := update_append hpoly ((sealed cipher.key data aad nonce).1.take done)
      (((sealed cipher.key data aad nonce).1.take end_).drop done)
    rw [hcut] at hupdate
    have hcount : done + (((sealed cipher.key data aad nonce).1.take end_).drop done).length =
        end_ := by
      rw [hlength]
      omega
    unfold absorbed
    simp only [hcount, ← hupdate]

/-- **The tag of the whole body** is the tag that was sent. -/
theorem finalizeProgressiveTagState_eq (hskip : cipher.preferPolySkip = false)
    (hstate : cipher.progressiveTagState = tagStateAt cipher data aad nonce data.length)
    {start : Nat} (hstart : start ≤ data.length) :
    cipher.finalizeProgressiveTagState aad (nonceToBytes nonce) (data.length + 16) data.length
      start = .ok (sealed cipher.key data aad nonce).2 := by
  have hall : (sealed cipher.key data aad nonce).1.take data.length =
      (sealed cipher.key data aad nonce).1 :=
    List.take_of_length_le (Nat.le_of_eq length_sealed_fst)
  have htag : ∀ state, state = absorbed cipher data aad nonce data.length →
      (((updatePadding state.poly data.length).update
        (HomeKitCipherFast.lengthBytes aad.length)).update
          (HomeKitCipherFast.lengthBytes data.length)).finalize =
        (sealed cipher.key data aad nonce).2 := by
    rintro _ rfl
    show _ = HomeKitCipherFast.computeTag _ (sealed cipher.key data aad nonce).1 _ _
    unfold HomeKitCipherFast.computeTag absorbed
    rw [hall, length_sealed_fst]
    rfl
  have hchecks : ∀ state, state = absorbed cipher data aad nonce data.length →
      ¬(state.nonceBytes ≠ nonceToBytes nonce ∨ state.expectedTotalLen ≠ data.length + 16 ∨
        state.expectedPayloadLen ≠ data.length ∨ state.processedCiphertextLen ≠ data.length) := by
    rintro _ rfl (h | h | h | h)
    all_goals exact h rfl
  unfold HomeKitCipherFast.finalizeProgressiveTagState
  by_cases hempty : data.length = 0
  · -- nothing has been decrypted, so the tag starts and ends here
    have hnone : cipher.progressiveTagState = none := by
      rw [hstate, tagStateAt, if_pos (.inr hempty)]
    have hzero : start = 0 := by omega
    have hinitial : cipher.initializeProgressiveTagState aad (nonceToBytes nonce) (data.length + 16)
        data.length = absorbed cipher data aad nonce data.length := by
      unfold absorbed
      rw [hempty, List.take_zero]
      rfl
    simp only [hnone, hzero, ne_eq, not_true_eq_false, if_false]
    rw [if_neg (hchecks _ hinitial), htag _ hinitial]
  · have hsome : cipher.progressiveTagState = some (absorbed cipher data aad nonce data.length) := by
      rw [hstate, tagStateAt, if_neg (by rw [hskip]; rintro (h | h); cases h; exact hempty h)]
    simp only [hsome]
    rw [if_neg (hchecks _ rfl), htag _ rfl]

/-- The cipher behind the first `len` bytes of a body. -/
def behind (cipher : HomeKitCipherFast) (data aad : List UInt8) (nonce : HomeKitChaChaNonce)
    (len : Nat) : HomeKitCipherFast :=
  { cipher with
    progressiveTagState :=
      if len = data.length + 16 then none else tagStateAt cipher data aad nonce (len - 16) }

/-- **The tag is compared.** -/
theorem verify_eq (hskip : cipher.preferPolySkip = false)
    (hstate : cipher.progressiveTagState = tagStateAt cipher data aad nonce data.length)
    {left : List UInt8} (hlength : left.length = data.length + 16)
    (htail : left.drop data.length = tag.toList)
    {start end_ : Nat} (hstart : start ≤ data.length) :
    cipher.verify left aad (nonceToBytes nonce) (data.length + 16) start end_ =
      ({ cipher with progressiveTagState := none }, left,
        if tag ≠ (sealed cipher.key data aad nonce).2 then .error .invalidSignature
        else .ok (end_ - start)) := by
  unfold HomeKitCipherFast.verify
  simp only [tagSize, hlength, Nat.add_sub_cancel,
    finalizeProgressiveTagState_eq hskip hstate hstart, htail, ne_eq, Vector.toList_inj]
  split <;> rfl

/-- The first step of a chunk: the tag. -/
theorem updated_eq {done end_ : Nat}
    (hstate : cipher.progressiveTagState = tagStateAt cipher data aad nonce done)
    (hdone : done ≤ end_) (hend : end_ ≤ data.length) :
    (if (!cipher.preferPolySkip && decide (done < end_)) = true then
      cipher.updateProgressiveTagState aad (nonceToBytes nonce) (data.length + 16) data.length done
        (((sealed cipher.key data aad nonce).1.take end_).drop done)
      else .ok cipher) =
      .ok { cipher with progressiveTagState := tagStateAt cipher data aad nonce end_ } := by
  by_cases hskip : cipher.preferPolySkip = true
  · have hnone : ∀ len, tagStateAt cipher data aad nonce len = none :=
      fun len => if_pos (.inl hskip)
    rw [hnone] at hstate ⊢
    rw [if_neg (by rw [hskip]; simp), ← hstate]
  · have hkeep : cipher.preferPolySkip = false := eq_false_of_ne_true hskip
    by_cases hlt : done < end_
    · have hsome : tagStateAt cipher data aad nonce end_ =
          some (absorbed cipher data aad nonce end_) := by
        refine if_neg ?_
        rintro (h | h)
        · exact hskip h
        · omega
      rw [if_pos (by rw [hkeep]; simpa using hlt), hsome,
        updateProgressiveTagState_eq hkeep hstate hdone hend]
    · have heq : done = end_ := by omega
      rw [if_neg (by simp [hlt]), ← heq, ← hstate]

/-- What the last chunk says about the tag; the others say nothing of it. -/
def verdict (cipher : HomeKitCipherFast) (data aad : List UInt8) (nonce : HomeKitChaChaNonce)
    (tag : Tag) (len count : Nat) : Except HomeKitCipherError Nat :=
  if len = data.length + 16 ∧ ¬cipher.preferPolySkip = true ∧
      tag ≠ (sealed cipher.key data aad nonce).2 then .error .invalidSignature
  else .ok count

/-- The right tag is accepted. -/
theorem verdict_right (cipher : HomeKitCipherFast) (data aad : List UInt8)
    (nonce : HomeKitChaChaNonce) (len count : Nat) :
    verdict cipher data aad nonce (sealed cipher.key data aad nonce).2 len count = .ok count :=
  if_neg fun h => h.2.2 rfl

/-- **A chunk of the body**, the last one too, behind the checks of its length. -/
theorem decryptChunk_eq {done len : Nat}
    (hstate : cipher.progressiveTagState = tagStateAt cipher data aad nonce done)
    (hdone : done ≤ len - 16) (hmin : 16 ≤ len) (hlen : len ≤ data.length + 16) :
    cipher.decryptChunk ((overlay data (withTag cipher.key data aad nonce tag) done).take len) aad nonce
        done len (data.length + 16) =
      (behind cipher data aad nonce len,
        (overlay data (withTag cipher.key data aad nonce tag) (len - 16)).take len,
        verdict cipher data aad nonce tag len (len - 16 - done)) := by
  set body := withTag cipher.key data aad nonce tag with hbody
  have hend : len - 16 ≤ data.length := by omega
  have hstart : done ≤ data.length := Nat.le_trans hdone hend
  have hwire : body.length = data.length + 16 := length_withTag
  have hlength : ((overlay data body done).take len).length = len :=
    length_take_overlay hstart (by omega) (by omega)
  have hlength' : ((overlay data body (len - 16)).take len).length = len :=
    length_take_overlay hend (by omega) (by omega)
  have hstretch : (((overlay data body done).take len).take (len - 16)).drop done =
      ((sealed cipher.key data aad nonce).1.take (len - 16)).drop done := by
    rw [stretch_overlay hstart hdone (by omega), take_withTag hend]
  have hstep : ((overlay data body done).take len).take done ++ (data.take (len - 16)).drop done ++
      ((overlay data body done).take len).drop (len - 16) =
        (overlay data body (len - 16)).take len := overlay_step hdone hend (Nat.sub_le len 16)
  have hmin1 : min done (len - 16) = done := Nat.min_eq_left hdone
  have hmin2 : min len (len - 16) = len - 16 := Nat.min_eq_right (Nat.sub_le len 16)
  have hupdated := updated_eq hstate hdone hend
  have hleft : (if done < len - 16 then
      ((overlay data body done).take len).take done ++
        applyKeystreamAtOffset cipher.key (nonceToBytes nonce) done
          (((sealed cipher.key data aad nonce).1.take (len - 16)).drop done) ++
        ((overlay data body done).take len).drop (len - 16)
      else (overlay data body done).take len) = (overlay data body (len - 16)).take len := by
    by_cases hlt : done < len - 16
    · rw [if_pos hlt, decrypts done hend, hstep]
    · have heq : done = len - 16 := by omega
      rw [if_neg hlt, heq]
  unfold HomeKitCipherFast.decryptChunk
  simp only [hlength, tagSize, hmin1, hmin2, hstretch, Nat.add_sub_cancel, hupdated]
  rw [hleft]
  by_cases hfinal : len = data.length + 16
  · have hbehind : behind cipher data aad nonce len = { cipher with progressiveTagState := none } := by
      unfold behind
      rw [if_pos hfinal]
    have hpayload : len - 16 = data.length := by omega
    have htail : ((overlay data body (len - 16)).take len).drop data.length =
        tag.toList := by
      rw [hpayload, take_overlay (Nat.le_refl _) (by omega), List.drop_append_of_le_length (by simp),
        List.drop_of_length_le (by simp), List.nil_append, List.take_of_length_le (by omega), hbody,
        drop_withTag]
    by_cases hskip : cipher.preferPolySkip = true
    · have hnone : tagStateAt cipher data aad nonce (len - 16) = none := if_pos (.inl hskip)
      have haccept : verdict cipher data aad nonce tag len (len - 16 - done) =
          .ok (len - 16 - done) := if_neg fun h => h.2.1 hskip
      rw [if_neg fun h => h.2 hskip, hnone, hbehind, haccept]
    · have hcompare : verdict cipher data aad nonce tag len (len - 16 - done) =
          if tag ≠ (sealed cipher.key data aad nonce).2 then .error .invalidSignature
          else .ok (len - 16 - done) := by
        unfold verdict
        by_cases hright : tag = (sealed cipher.key data aad nonce).2
        · rw [if_neg fun h => h.2.2 hright, if_neg (not_not.mpr hright)]
        · rw [if_pos ⟨hfinal, hskip, hright⟩, if_pos hright]
      rw [if_pos ⟨hfinal, hskip⟩, hbehind, hcompare]
      exact @verify_eq
        { cipher with progressiveTagState := tagStateAt cipher data aad nonce (len - 16) } data aad
        nonce tag (eq_false_of_ne_true hskip) (congrArg (tagStateAt cipher data aad nonce) hpayload)
        _ (hlength'.trans hfinal) htail _ _ hstart
  · have haccept : verdict cipher data aad nonce tag len (len - 16 - done) =
        .ok (len - 16 - done) := if_neg fun h => hfinal h.1
    rw [if_neg fun h => hfinal h.1, haccept]
    unfold behind
    rw [if_neg hfinal]

/-- **Any part of a body that has come in**: all but its last 16 bytes are decrypted. -/
theorem decryptProgressive_fast {len more : Nat}
    (hstate : cipher.progressiveTagState = tagStateAt cipher data aad nonce (len - 16))
    (hmore : len ≤ more) (hlen : more ≤ data.length + 16)
    (hmax : data.length ≤ maxPayloadBytes) :
    cipher.decryptProgressive
        ((overlay data (withTag cipher.key data aad nonce tag) (len - 16)).take more) aad nonce (len - 16)
        more (data.length + 16) =
      (behind cipher data aad nonce more,
        (overlay data (withTag cipher.key data aad nonce tag) (more - 16)).take more,
        verdict cipher data aad nonce tag more (more - 16 - (len - 16))) := by
  have hlength : ((overlay data (withTag cipher.key data aad nonce tag) (len - 16)).take more).length =
      more :=
    length_take_overlay (by omega) (by rw [length_withTag]; omega) (by rw [length_withTag]; exact hlen)
  have htotal : ¬data.length + 16 < tagSize := by
    show ¬data.length + 16 < 16
    omega
  have hpayload : ¬data.length + 16 - tagSize > maxPayloadBytes := Nat.not_lt.mpr hmax
  unfold HomeKitCipherFast.decryptProgressive
  simp only [hlength]
  rw [if_neg htotal, if_neg hpayload]
  by_cases hshort : more < tagSize
  · -- too short to hold anything but the tag
    have hshort' : more < 16 := hshort
    have hzero : more - 16 = 0 := by omega
    have hzero' : len - 16 = 0 := by omega
    have hkeep : behind cipher data aad nonce more = cipher := by
      unfold behind
      rw [if_neg (by omega), hzero, ← hzero', ← hstate]
    have haccept : verdict cipher data aad nonce tag more 0 = .ok 0 := if_neg fun h => by omega
    rw [if_pos hshort, if_pos (by omega), hkeep, hzero, hzero', haccept]
  · have hlong : ¬more < 16 := hshort
    rw [if_neg hshort, if_neg (by omega), if_neg fun h => h.2 h.1]
    exact decryptChunk_eq hstate (by omega) (by omega) hlen

end Fast

/-! ## The other cipher -/

section Ring

variable {backend : Backend} {cipher : HomeKitCipherRing} {data aad : List UInt8}
  {nonce : HomeKitChaChaNonce}

/-- **Any part of a body that has come in**: it is left as it is until it is whole. -/
theorem decryptProgressive_ring (hstandard : Standard backend) {len more : Nat}
    (hmore : len ≤ more) (hlen : more ≤ data.length + 16)
    (hmax : data.length ≤ maxPayloadBytes) :
    cipher.decryptProgressive backend ((wire cipher.key data aad nonce).take more) aad nonce
        (len - 16) more (data.length + 16) =
      (cipher,
        (if more = data.length + 16 then
          overlay data (wire cipher.key data aad nonce) data.length
        else (wire cipher.key data aad nonce).take more),
        .ok (more - 16 - (len - 16))) := by
  have hlength : ((wire cipher.key data aad nonce).take more).length = more := by
    rw [List.length_take, length_wire, Nat.min_eq_left hlen]
  have hopens := hstandard.opens cipher.key nonce aad data hmax
  unfold HomeKitCipherRing.decryptProgressive
  simp only [hlength]
  by_cases hshort : more < tagSize
  · have hshort' : more < 16 := hshort
    have hzero : more - 16 = 0 := by omega
    have hzero' : len - 16 = 0 := by omega
    rw [if_pos hshort, if_pos (by omega), if_neg (by omega), hzero, hzero']
  · have hlong : ¬more < 16 := hshort
    have hmin1 : min (len - 16) (more - 16) = len - 16 := Nat.min_eq_left (by omega)
    have hmin2 : min more (more - 16) = more - 16 := Nat.min_eq_right (Nat.sub_le more 16)
    rw [if_neg hshort, if_neg (by omega), if_neg fun h => h.2 h.1]
    simp only [tagSize, hmin1, hmin2]
    by_cases hfinal : more = data.length + 16
    · have hwhole : (wire cipher.key data aad nonce).take more = wire cipher.key data aad nonce :=
        List.take_of_length_le (Nat.le_of_eq (by rw [length_wire, hfinal]))
      have hdecrypt : cipher.decrypt backend (wire cipher.key data aad nonce) aad nonce =
          (data ++ (wire cipher.key data aad nonce).drop data.length, .ok data.length) := by
        have hroom : ¬data.length + 16 < tagSize := by
          show ¬data.length + 16 < 16
          omega
        unfold HomeKitCipherRing.decrypt
        rw [length_wire, if_neg hroom, hopens]
        exact if_neg fun h => h rfl
      rw [if_pos hfinal, if_pos hfinal, hwhole, hdecrypt, overlay, List.take_length]
    · rw [if_neg hfinal, if_neg hfinal]

end Ring

/-! ## Either cipher -/

section Either

variable {backend : Backend} {cipher : HomeKitCipher} {data aad : List UInt8}
  {nonce : HomeKitChaChaNonce}

def keyOf : HomeKitCipher → Key
  | .fast cipher => cipher.key
  | .ring cipher => cipher.key

/-- Between two bodies. -/
def Idle : HomeKitCipher → Prop
  | .fast cipher => cipher.progressiveTagState = none
  | .ring _ => True

/-- The first `len` bytes of a body have been seen. -/
def Midway (data aad : List UInt8) (nonce : HomeKitChaChaNonce) (len : Nat) :
    HomeKitCipher → Prop
  | .fast cipher => cipher.progressiveTagState = tagStateAt cipher data aad nonce (len - 16)
  | .ring _ => True

/-- What the body is then, what is still to come included. -/
def mixed (data wire : List UInt8) (len : Nat) : HomeKitCipher → List UInt8
  | .fast _ => overlay data wire (len - 16)
  | .ring _ => wire

theorem midway_zero (h : Idle cipher) : Midway data aad nonce 0 cipher := by
  cases cipher with
  | fast cipher =>
    have hnone : tagStateAt cipher data aad nonce 0 = none := if_pos (.inr rfl)
    exact Eq.trans h hnone.symm
  | ring cipher => trivial

theorem mixed_zero (data wire : List UInt8) : mixed data wire 0 cipher = wire := by
  cases cipher with
  | fast cipher => rfl
  | ring cipher => rfl

theorem length_mixed {len : Nat} (hlen : len ≤ data.length + 16) :
    (mixed data (wire (keyOf cipher) data aad nonce) len cipher).length = data.length + 16 := by
  cases cipher with
  | fast cipher =>
    show (overlay data _ (len - 16)).length = _
    rw [length_overlay (by omega) (by rw [length_wire]; omega), length_wire]
  | ring cipher => exact length_wire

theorem decryptProgressive_of_fast {cipher cipher' : HomeKitCipherFast}
    {dataAndTag left : List UInt8} {start end_ total : Nat}
    {answer : Except HomeKitCipherError Nat}
    (h : cipher.decryptProgressive dataAndTag aad nonce start end_ total =
      (cipher', left, answer)) :
    (HomeKitCipher.fast cipher).decryptProgressive backend dataAndTag aad nonce start end_ total =
      (.fast cipher', left, answer) := by
  unfold HomeKitCipher.decryptProgressive
  simp only [h]

theorem decryptProgressive_of_ring {cipher cipher' : HomeKitCipherRing}
    {dataAndTag left : List UInt8} {start end_ total : Nat}
    {answer : Except HomeKitCipherError Nat}
    (h : cipher.decryptProgressive backend dataAndTag aad nonce start end_ total =
      (cipher', left, answer)) :
    (HomeKitCipher.ring cipher).decryptProgressive backend dataAndTag aad nonce start end_ total =
      (.ring cipher', left, answer) := by
  unfold HomeKitCipher.decryptProgressive
  simp only [h]

/-- **A part of a body.** -/
theorem decryptProgressive_part (hstandard : Standard backend) {len more : Nat}
    (hmidway : Midway data aad nonce len cipher) (hmore : len ≤ more)
    (hlen : more < data.length + 16) (hmax : data.length ≤ maxPayloadBytes) :
    ∃ cipher',
      cipher.decryptProgressive backend
          ((mixed data (wire (keyOf cipher) data aad nonce) len cipher).take more) aad nonce
          (len - 16) more (data.length + 16) =
        (cipher', (mixed data (wire (keyOf cipher) data aad nonce) more cipher').take more,
          .ok (more - 16 - (len - 16))) ∧
      Midway data aad nonce more cipher' ∧ keyOf cipher' = keyOf cipher := by
  cases cipher with
  | fast cipher =>
    have hchunk := @decryptProgressive_fast cipher data aad nonce
      (sealed cipher.key data aad nonce).2 len more hmidway hmore (Nat.le_of_lt hlen) hmax
    rw [verdict_right] at hchunk
    refine ⟨.fast (behind cipher data aad nonce more), decryptProgressive_of_fast hchunk, ?_, rfl⟩
    exact if_neg (Nat.ne_of_lt hlen)
  | ring cipher =>
    have hchunk := @decryptProgressive_ring backend cipher data aad nonce hstandard len more hmore
      (Nat.le_of_lt hlen) hmax
    rw [if_neg (Nat.ne_of_lt hlen)] at hchunk
    exact ⟨.ring cipher, decryptProgressive_of_ring hchunk, trivial, rfl⟩

/-- **The whole of a body**: the data, and the tag behind them. -/
theorem decryptProgressive_whole (hstandard : Standard backend) {len : Nat}
    (hmidway : Midway data aad nonce len cipher) (hlen : len ≤ data.length + 16)
    (hmax : data.length ≤ maxPayloadBytes) :
    ∃ cipher',
      cipher.decryptProgressive backend
          (mixed data (wire (keyOf cipher) data aad nonce) len cipher) aad nonce
          (len - 16) (data.length + 16) (data.length + 16) =
        (cipher', overlay data (wire (keyOf cipher) data aad nonce) data.length,
          .ok (data.length - (len - 16))) ∧
      Idle cipher' ∧ keyOf cipher' = keyOf cipher := by
  have hall : ∀ body : List UInt8, body.length = data.length + 16 →
      body.take (data.length + 16) = body :=
    fun body hbody => List.take_of_length_le (Nat.le_of_eq hbody)
  cases cipher with
  | fast cipher =>
    have hchunk := @decryptProgressive_fast cipher data aad nonce
      (sealed cipher.key data aad nonce).2 len _ hmidway hlen (Nat.le_refl _) hmax
    have hbefore : (overlay data (wire cipher.key data aad nonce) (len - 16)).length =
        data.length + 16 := @length_mixed (.fast cipher) data aad nonce len hlen
    have hafter : (overlay data (wire cipher.key data aad nonce) data.length).length =
        data.length + 16 := by
      rw [length_overlay (Nat.le_refl _) (by rw [length_wire]; omega), length_wire]
    rw [verdict_right, Nat.add_sub_cancel, ← wire, hall _ hbefore, hall _ hafter] at hchunk
    refine ⟨.fast (behind cipher data aad nonce (data.length + 16)),
      decryptProgressive_of_fast hchunk, ?_, rfl⟩
    exact if_pos rfl
  | ring cipher =>
    have hchunk := @decryptProgressive_ring backend cipher data aad nonce hstandard len
      (data.length + 16) hlen (Nat.le_refl _) hmax
    rw [hall _ length_wire, if_pos rfl, Nat.add_sub_cancel] at hchunk
    exact ⟨.ring cipher, decryptProgressive_of_ring hchunk, trivial, rfl⟩

/-- **Either cipher seals alike.** -/
theorem encrypt_eq (hstandard : Standard backend) (hmax : data.length ≤ maxPayloadBytes) :
    cipher.encrypt backend data aad nonce = .ok (sealed (keyOf cipher) data aad nonce) := by
  cases cipher with
  | fast cipher => rfl
  | ring cipher =>
    show cipher.encrypt backend data aad nonce = _
    unfold HomeKitCipherRing.encrypt
    rw [hstandard.seals cipher.key nonce aad data hmax]
    rfl

theorem idle_resetPrefetch : Idle cipher.resetPrefetch := by
  cases cipher with
  | fast cipher => rfl
  | ring cipher => trivial

theorem keyOf_resetPrefetch : keyOf cipher.resetPrefetch = keyOf cipher := by
  cases cipher with
  | fast cipher => rfl
  | ring cipher => rfl

end Either

end Catplay.Analysis.Hap
