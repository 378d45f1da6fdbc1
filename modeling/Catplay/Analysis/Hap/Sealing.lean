import Catplay.Analysis.Hap.Schedules

/-!
# Sealing and opening

The fast cipher opens what it seals and nothing else: a body is accepted exactly when it is the
ciphertext of the returned data with the tag behind it.
-/

set_option autoImplicit false

namespace Catplay.Analysis.Hap

open Catplay.Model.Hap Catplay.Library

variable {key : Key} {aad data body : List UInt8} {nonce : HomeKitChaChaNonce}

/-- **What `decrypt` accepts.** -/
theorem decrypt_ok_iff :
    (plaintext ((HomeKitCipherFast.new key).decrypt body aad nonce)).2 = .ok data ↔
      data.length ≤ maxPayloadBytes ∧ body = wire key data aad nonce := by
  rw [plaintext_decrypt]
  by_cases hrefused : body.length < tagSize ∨ maxPayloadBytes < body.length - tagSize
  · have hreceive := @receive_refused (.new key) aad nonce body [] hrefused
    rw [List.nil_append] at hreceive
    rw [hreceive]
    refine ⟨fun h => (by cases h), ?_⟩
    rintro ⟨hmax, rfl⟩
    rw [length_wire] at hrefused
    unfold tagSize at hrefused
    omega
  · obtain ⟨hlong, hmax⟩ := not_or.mp hrefused
    obtain ⟨found, tag, rfl, -, -, -⟩ := exists_withTag key aad nonce (Nat.le_of_not_lt hlong)
    have hroom : found.length ≤ maxPayloadBytes := by
      rw [length_withTag] at hmax
      exact Nat.le_of_not_lt hmax
    have hreceive := @receive_overlay (.new key) found aad nonce tag 0 [] rfl hroom
      (Nat.zero_le _) (by simp) List.Pairwise.nil (by simp)
    rw [length_withTag]
    change receive aad nonce _ _ (withTag key found aad nonce tag) 0 _ = _ at hreceive
    rw [List.nil_append] at hreceive
    rw [hreceive]
    have hright : ∀ other, withTag key found aad nonce tag = wire key other aad nonce ↔
        found = other ∧ tag = (sealed key found aad nonce).2 := by
      intro other
      constructor
      · intro hsame
        have hlength : found.length = other.length := by
          have := congrArg List.length hsame
          rw [length_withTag, length_wire] at this
          omega
        obtain ⟨hfirst, htag⟩ := List.append_inj hsame (by simp [hlength])
        have hfound := @decrypts key found aad nonce 0 _ (Nat.le_refl _)
        have hother := @decrypts key other aad nonce 0 _ (Nat.le_refl _)
        simp only [List.take_length, List.drop_zero] at hfound hother
        rw [hfirst, hlength, hother] at hfound
        subst hfound
        exact ⟨rfl, Vector.toList_inj.mp htag⟩
      · rintro ⟨rfl, rfl⟩
        rfl
    rw [hright]
    by_cases htag : tag = (sealed key found aad nonce).2
    · rw [if_neg fun h => h.2 htag]
      exact ⟨fun h => ⟨Except.ok.inj h ▸ hroom, Except.ok.inj h, htag⟩, fun h => congrArg _ h.2.1⟩
    · rw [if_pos ⟨by simp [HomeKitCipherFast.new], htag⟩]
      exact ⟨fun h => (by cases h), fun h => absurd h.2.2 htag⟩

/-- **The cipher is ChaCha20-Poly1305**, and no other body than the sealed one opens to the data. -/
theorem opens_only_sealed (key : Key) (aad data body : List UInt8) (nonce : HomeKitChaChaNonce) :
    let cipher := HomeKitCipherFast.new key
    let ciphertext := (cipher.encrypt data aad nonce).1
    let tag := (cipher.encrypt data aad nonce).2.toList
    (ciphertext, tag) =
        ChaChaPoly.sealData key.toList (nonceToBytes nonce).toList aad data ∧
      ((plaintext (cipher.decrypt body aad nonce)).2 = .ok data ↔
        data.length ≤ maxPayloadBytes ∧ body = ciphertext ++ tag) :=
  ⟨sealed_eq key data aad nonce, decrypt_ok_iff⟩

end Catplay.Analysis.Hap
