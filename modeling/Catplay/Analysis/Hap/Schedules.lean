import Catplay.Analysis.Hap.Construction

/-!
# Any schedule of chunks

However a body is cut into chunks, decrypting it as it comes in gives what decrypting it at once
gives (`receive_eq_decrypt`): the plaintext of ChaCha20-Poly1305, or the error for a wrong tag.
-/

set_option autoImplicit false

namespace Catplay.Analysis.Hap

open Catplay.Model.Hap Catplay.Library

/-! ## The calls of a receiver -/

/-- A receiver of a body: whenever the next of `ends` has come in, it decrypts from where it has got
to. It stops at an error and has the plaintext in the end. -/
def receive (aad : List UInt8) (nonce : HomeKitChaChaNonce) (total : Nat) :
    HomeKitCipherFast → (body : List UInt8) → (decrypted : Nat) → (ends : List Nat) →
      HomeKitCipherFast × Except HomeKitCipherError (List UInt8)
  | cipher, body, decrypted, [] => (cipher, .ok (body.take decrypted))
  | cipher, body, decrypted, end_ :: ends =>
    match cipher.decryptProgressive (body.take end_) aad nonce decrypted end_ total with
    | (cipher, _, .error e) => (cipher, .error e)
    | (cipher, left, .ok count) =>
      receive aad nonce total cipher (left ++ body.drop end_) (decrypted + count) ends

/-- What a call for a whole body returns. -/
def plaintext : HomeKitCipherFast.Answer HomeKitCipherFast →
    HomeKitCipherFast × Except HomeKitCipherError (List UInt8)
  | (cipher, _, .error e) => (cipher, .error e)
  | (cipher, left, .ok count) => (cipher, .ok (left.take count))

section Receive

variable {cipher : HomeKitCipherFast} {data aad : List UInt8} {nonce : HomeKitChaChaNonce}
  {tag : Tag}

/-- A call that fails at once fails as the first of any schedule. -/
theorem receive_of_error {total end_ : Nat} {ends : List Nat} {body : List UInt8} {decrypted : Nat}
    {error : HomeKitCipherError}
    (h : cipher.decryptProgressive (body.take end_) aad nonce decrypted end_ total =
      (cipher, body.take end_, .error error)) :
    receive aad nonce total cipher body decrypted (end_ :: ends) = (cipher, .error error) := by
  unfold receive
  rw [h]

theorem receive_of_ok {total end_ : Nat} {ends : List Nat} {body left : List UInt8}
    {decrypted count : Nat} {cipher' : HomeKitCipherFast}
    (h : cipher.decryptProgressive (body.take end_) aad nonce decrypted end_ total =
      (cipher', left, .ok count)) :
    receive aad nonce total cipher body decrypted (end_ :: ends) =
      receive aad nonce total cipher' (left ++ body.drop end_) (decrypted + count) ends := by
  conv_lhs => unfold receive
  rw [h]

/-- The rest of a body is not touched. -/
theorem drop_overlay {wire : List UInt8} {done len : Nat} (h : done ≤ data.length)
    (hdone : done ≤ len) : (overlay data wire done).drop len = wire.drop len := by
  have hfront : (data.take done).length = done := by rw [List.length_take, Nat.min_eq_left h]
  have hcover : (data.take done).drop len = [] :=
    List.drop_of_length_le (by rw [hfront]; exact hdone)
  rw [overlay, List.drop_append, hfront, hcover, List.nil_append, List.drop_drop,
    Nat.add_sub_cancel' hdone]

theorem overlay_grow {wire : List UInt8} {done more len : Nat} (hdone : done ≤ more)
    (hmore : more ≤ data.length) (hlen : more ≤ len) :
    (overlay data wire more).take len ++ (overlay data wire done).drop len =
      overlay data wire more := by
  have hrest : (overlay data wire done).drop len = (overlay data wire more).drop len := by
    rw [drop_overlay (Nat.le_trans hdone hmore) (Nat.le_trans hdone hlen), drop_overlay hmore hlen]
  rw [hrest, List.take_append_drop]

theorem tagStateAt_behind {len : Nat} (len' : Nat) :
    tagStateAt (behind cipher data aad nonce len) data aad nonce len' =
      tagStateAt cipher data aad nonce len' := rfl

/-- **A whole schedule**: the data if the tag is right. -/
theorem receive_overlay {len : Nat} {ends : List Nat}
    (hstate : cipher.progressiveTagState = tagStateAt cipher data aad nonce (len - 16))
    (hmax : data.length ≤ maxPayloadBytes) (hlen : len ≤ data.length + 16)
    (hfrom : ∀ end_ ∈ ends, len ≤ end_) (hsorted : ends.Pairwise (· ≤ ·))
    (hbelow : ∀ end_ ∈ ends, end_ < data.length + 16) :
    receive aad nonce (data.length + 16) cipher
        (overlay data (withTag cipher.key data aad nonce tag) (len - 16)) (len - 16)
        (ends ++ [data.length + 16]) =
      ({ cipher with progressiveTagState := none },
        if ¬cipher.preferPolySkip = true ∧ tag ≠ (sealed cipher.key data aad nonce).2 then
          .error .invalidSignature
        else .ok data) := by
  induction ends generalizing cipher len with
  | nil =>
    have hchunk := @decryptProgressive_fast cipher data aad nonce tag len _ hstate hlen
      (Nat.le_refl _) hmax
    have hidle : behind cipher data aad nonce (data.length + 16) =
        { cipher with progressiveTagState := none } := by
      unfold behind
      rw [if_pos rfl]
    have hrest := @overlay_grow data (withTag cipher.key data aad nonce tag) (len - 16) data.length
      (data.length + 16) (by omega) (Nat.le_refl _) (Nat.le_add_right _ _)
    rw [hidle, Nat.add_sub_cancel] at hchunk
    by_cases hwrong : ¬cipher.preferPolySkip = true ∧ tag ≠ (sealed cipher.key data aad nonce).2
    · have hverdict : verdict cipher data aad nonce tag (data.length + 16)
          (data.length - (len - 16)) = .error .invalidSignature := if_pos ⟨rfl, hwrong⟩
      rw [hverdict] at hchunk
      rw [if_pos hwrong, List.nil_append]
      unfold receive
      rw [hchunk]
    · have hverdict : verdict cipher data aad nonce tag (data.length + 16)
          (data.length - (len - 16)) = .ok (data.length - (len - 16)) :=
        if_neg fun h => hwrong h.2
      have hcount : len - 16 + (data.length - (len - 16)) = data.length := by omega
      rw [hverdict] at hchunk
      rw [if_neg hwrong, List.nil_append, receive_of_ok hchunk, hrest, hcount]
      unfold receive
      rw [overlay, List.take_length, List.take_left]
  | cons end_ ends ih =>
    have hmore := hfrom end_ List.mem_cons_self
    have hlt := hbelow end_ List.mem_cons_self
    obtain ⟨hleast, hsorted'⟩ := List.pairwise_cons.mp hsorted
    have hchunk := @decryptProgressive_fast cipher data aad nonce tag len end_ hstate hmore
      (Nat.le_of_lt hlt) hmax
    have hverdict : verdict cipher data aad nonce tag end_ (end_ - 16 - (len - 16)) =
        .ok (end_ - 16 - (len - 16)) := if_neg fun h => Nat.ne_of_lt hlt h.1
    have hrest := @overlay_grow data (withTag cipher.key data aad nonce tag) (len - 16) (end_ - 16)
      end_ (by omega) (by omega) (Nat.sub_le _ _)
    have hcount : len - 16 + (end_ - 16 - (len - 16)) = end_ - 16 := by omega
    have hbehind : (behind cipher data aad nonce end_).progressiveTagState =
        tagStateAt (behind cipher data aad nonce end_) data aad nonce (end_ - 16) := by
      rw [tagStateAt_behind]
      exact if_neg (Nat.ne_of_lt hlt)
    rw [hverdict] at hchunk
    rw [List.cons_append, receive_of_ok hchunk, hrest, hcount]
    exact ih hbehind (Nat.le_of_lt hlt) hleast hsorted'
      fun e he => hbelow e (List.mem_cons_of_mem end_ he)

/-- **A body that no cipher takes** is refused at the first call of any schedule. -/
theorem receive_refused {body : List UInt8} {ends : List Nat}
    (h : body.length < tagSize ∨ maxPayloadBytes < body.length - tagSize) :
    receive aad nonce body.length cipher body 0 (ends ++ [body.length]) =
      (cipher, .error (if body.length < tagSize then .payloadTooSmall
        else .unexpectedDecryptedLength)) := by
  have hcall : ∀ end_, cipher.decryptProgressive (body.take end_) aad nonce 0 end_ body.length =
      (cipher, body.take end_, .error (if body.length < tagSize then .payloadTooSmall
        else .unexpectedDecryptedLength)) := by
    intro end_
    unfold HomeKitCipherFast.decryptProgressive
    by_cases hshort : body.length < tagSize
    · rw [if_pos hshort, if_pos hshort]
    · have hlong : body.length - tagSize > maxPayloadBytes := h.resolve_left hshort
      rw [if_neg hshort, if_neg hshort, if_pos hlong]
  cases ends with
  | nil => exact receive_of_error (hcall _)
  | cons end_ ends => exact receive_of_error (hcall end_)

/-- Decrypting at once is the schedule of one call. -/
theorem plaintext_decrypt (body : List UInt8) :
    plaintext (cipher.decrypt body aad nonce) =
      receive aad nonce body.length cipher body 0 [body.length] := by
  have hwhole : body.take body.length = body := List.take_length
  unfold HomeKitCipherFast.decrypt
  rcases hcall : cipher.decryptProgressive body aad nonce 0 body.length body.length with
    ⟨cipher', left, answer⟩
  cases answer with
  | error e =>
    unfold receive
    rw [hwhole, hcall]
    rfl
  | ok count =>
    have hrest : body.drop body.length = [] := List.drop_length
    have hfirst : cipher.decryptProgressive (body.take body.length) aad nonce 0 body.length
        body.length = (cipher', left, .ok count) := by
      rw [hwhole]
      exact hcall
    rw [receive_of_ok hfirst, hrest, List.append_nil, Nat.zero_add]
    rfl

end Receive

/-- What the construction says of a body, but for the tag where tags are skipped. -/
def judged (cipher : HomeKitCipherFast) (aad : List UInt8) (nonce : HomeKitChaChaNonce)
    (body : List UInt8) : Except HomeKitCipherError (List UInt8) :=
  let ciphertext := body.take (body.length - tagSize)
  let tag := body.drop (body.length - tagSize)
  let key := cipher.key.toList
  let nonceBytes := (nonceToBytes nonce).toList
  if body.length < tagSize then .error .payloadTooSmall
  else if maxPayloadBytes < body.length - tagSize then .error .unexpectedDecryptedLength
  else if cipher.preferPolySkip then .ok (ChaChaPoly.chacha20 key nonceBytes 1 ciphertext)
  else
    match ChaChaPoly.openSealed key nonceBytes aad ciphertext tag with
    | some data => .ok data
    | none => .error .invalidSignature

/-- **Progressive decryption is decryption**, and both are ChaCha20-Poly1305. A cipher between two
bodies reads a body, in whatever chunks it comes in, as `decrypt` reads it at once, and is between
two bodies again. At any offset the keystream is the one that starts with the payload. -/
theorem receive_eq_decrypt (cipher : HomeKitCipherFast) (hidle : cipher.progressiveTagState = none)
    (aad : List UInt8) (nonce : HomeKitChaChaNonce) (body : List UInt8) (ends : List Nat)
    (hsorted : ends.Pairwise (· ≤ ·)) (hbelow : ∀ end_ ∈ ends, end_ < body.length) :
    receive aad nonce body.length cipher body 0 (ends ++ [body.length]) =
      plaintext (cipher.decrypt body aad nonce) ∧
    plaintext (cipher.decrypt body aad nonce) = (cipher, judged cipher aad nonce body) ∧
    ∀ front data : List UInt8,
      applyKeystreamAtOffset cipher.key (nonceToBytes nonce) front.length data =
        (ChaChaPoly.chacha20 cipher.key.toList (nonceToBytes nonce).toList 1
          (front ++ data)).drop front.length := by
  have hslice : ∀ front data : List UInt8,
      applyKeystreamAtOffset cipher.key (nonceToBytes nonce) front.length data =
        (ChaChaPoly.chacha20 cipher.key.toList (nonceToBytes nonce).toList 1
          (front ++ data)).drop front.length := by
    intro front data
    rw [applyKeystreamAtOffset_slice, applyKeystreamAtOffset_zero]
  rw [plaintext_decrypt]
  by_cases hrefused : body.length < tagSize ∨ maxPayloadBytes < body.length - tagSize
  · have hone := @receive_refused cipher aad nonce body [] hrefused
    rw [List.nil_append] at hone
    rw [receive_refused hrefused, hone]
    have hjudged : judged cipher aad nonce body =
        .error (if body.length < tagSize then .payloadTooSmall else .unexpectedDecryptedLength) := by
      unfold judged
      dsimp only
      by_cases hshort : body.length < tagSize
      · rw [if_pos hshort, if_pos hshort]
      · rw [if_neg hshort, if_neg hshort, if_pos (hrefused.resolve_left hshort)]
    rw [hjudged]
    exact ⟨rfl, rfl, hslice⟩
  · obtain ⟨hlong, hmax⟩ := not_or.mp hrefused
    have hsize : 16 ≤ body.length := Nat.le_of_not_lt hlong
    obtain ⟨data, tag, hbody, hdata, hciphertext, htag⟩ :=
      exists_withTag cipher.key aad nonce hsize
    have hlength : body.length = data.length + 16 := by
      rw [hbody, length_withTag]
    have hroom : data.length ≤ maxPayloadBytes := by
      have hpayload : body.length - tagSize ≤ maxPayloadBytes := Nat.le_of_not_lt hmax
      rwa [hlength] at hpayload
    have hstart : cipher.progressiveTagState = tagStateAt cipher data aad nonce (0 - 16) := by
      rw [hidle]
      exact (if_pos (.inr rfl)).symm
    have hrun : ∀ ends : List Nat, ends.Pairwise (· ≤ ·) →
        (∀ end_ ∈ ends, end_ < data.length + 16) →
        receive aad nonce body.length cipher body 0 (ends ++ [body.length]) =
          ({ cipher with progressiveTagState := none },
            if ¬cipher.preferPolySkip = true ∧ tag ≠ (sealed cipher.key data aad nonce).2 then
              .error .invalidSignature
            else .ok data) := by
      intro ends hsorted hbelow
      have hall := @receive_overlay cipher data aad nonce tag 0 ends hstart hroom (Nat.zero_le _)
        (fun end_ _ => Nat.zero_le end_) hsorted hbelow
      rw [Nat.zero_sub, overlay_zero, ← hbody, ← hlength] at hall
      exact hall
    have hone := hrun [] List.Pairwise.nil (fun end_ h => nomatch h)
    rw [List.nil_append] at hone
    have hsame : ({ cipher with progressiveTagState := none } : HomeKitCipherFast) = cipher := by
      rw [← hidle]
    rw [hrun ends hsorted (fun end_ h => hlength ▸ hbelow end_ h), hone]
    have hpayload : body.length - tagSize = body.length - 16 := rfl
    have hexpected : (sealed cipher.key data aad nonce).2.toList =
        ChaChaPoly.tag cipher.key.toList (nonceToBytes nonce).toList aad
          (body.take (body.length - tagSize)) := by
      rw [hpayload, ← hciphertext]
      exact computeTag_eq (HomeKitCipherFast.new cipher.key) _ aad (nonceToBytes nonce)
    have hcompare : tag = (sealed cipher.key data aad nonce).2 ↔
        body.drop (body.length - tagSize) = ChaChaPoly.tag cipher.key.toList
          (nonceToBytes nonce).toList aad (body.take (body.length - tagSize)) := by
      rw [← hexpected, hpayload, ← htag, Vector.toList_inj]
    have hjudged : judged cipher aad nonce body =
        if ¬cipher.preferPolySkip = true ∧ tag ≠ (sealed cipher.key data aad nonce).2 then
          .error .invalidSignature
        else .ok data := by
      unfold judged ChaChaPoly.openSealed
      dsimp only
      rw [if_neg hlong, if_neg hmax, hpayload, ← hdata, ← hpayload]
      by_cases hskip : cipher.preferPolySkip = true
      · rw [if_pos hskip, if_neg fun h => h.1 hskip]
      · rw [if_neg hskip]
        by_cases hright : tag = (sealed cipher.key data aad nonce).2
        · rw [if_pos (hcompare.mp hright), if_neg fun h => h.2 hright]
        · rw [if_neg fun h => hright (hcompare.mpr h), if_pos ⟨hskip, hright⟩]
    rw [hjudged, hsame]
    exact ⟨rfl, rfl, hslice⟩

/-- A body of which a byte comes first, then 19 more, and then the rest. -/
theorem receive_eq_decrypt_three :
    receive [1, 2] 5 (List.replicate 24 7).length (.new (Vector.replicate 32 3))
        (List.replicate 24 7) 0 ([1, 20] ++ [(List.replicate 24 (7 : UInt8)).length]) =
      plaintext ((HomeKitCipherFast.new (Vector.replicate 32 3)).decrypt (List.replicate 24 7)
        [1, 2] 5) :=
  (receive_eq_decrypt (.new (Vector.replicate 32 3)) rfl [1, 2] 5 (List.replicate 24 7) [1, 20]
    (by decide) (by decide)).1

end Catplay.Analysis.Hap
