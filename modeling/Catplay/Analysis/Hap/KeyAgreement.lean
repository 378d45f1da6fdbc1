import Catplay.Model.Hap.Srp

/-!
# Key agreement of the pair setup

The client takes `k * g ^ x` off the public value of the server, which leaves `g ^ b`, and raises it
to `a + u * x`; the server raises `A * v ^ u` to `b`. Both powers are `g ^ (b * (a + u * x))`
(`client_power`, `server_power`), and both sides hash the same bytes, as a number is always written
without zero bytes in front (`fromSlice_toVec`).
-/

set_option autoImplicit false

namespace Catplay.Analysis.Hap.KeyAgreement

open Catplay.Library Catplay.Library.Checked Catplay.Model.Hap.Srp

/-! ## Numbers -/

theorem lt_numBytes (value : Nat) : value < 256 ^ numBytes value := by
  unfold numBytes
  split
  · next hzero =>
    rw [hzero]
    exact Nat.one_pos
  · have hlog : value < 2 ^ (value.log2 + 1) := Nat.lt_log2_self
    have hpow : (256 : Nat) ^ (value.log2 / 8 + 1) = 2 ^ (8 * (value.log2 / 8 + 1)) := by
      rw [Nat.pow_mul]
    rw [hpow]
    exact Nat.lt_of_lt_of_le hlog (Nat.pow_le_pow_right (by decide) (by omega))

/-- **Written and read**, a number is the same. -/
theorem fromSlice_toVec (value : Nat) : fromSlice (toVec value) = value :=
  BigEndian.ofBytes_toBytes (lt_numBytes value)

theorem nnmod_ok {n : Nat} (hn : 0 < n) (a : Int) : nnmod a n = .ok (a % n).toNat := by
  unfold nnmod
  rw [if_neg (by omega)]

theorem nnmod_nat {n : Nat} (hn : 0 < n) (a : Nat) : nnmod a n = .ok (a % n) := by
  rw [nnmod_ok hn]
  congr 1

theorem modExpBn_ok {n : Nat} (hn : 0 < n) (base exp : Nat) :
    modExpBn base exp n = .ok (base ^ exp % n) := nnmod_nat hn _

theorem modMulBn_ok {n : Nat} (hn : 0 < n) (a b : Nat) : modMulBn a b n = .ok (a * b % n) :=
  nnmod_nat hn _

theorem modExp_ok {n : Nat} (hn : 0 < n) (base exp : Nat) :
    modExp base exp n = .ok (toVec (base ^ exp % n)) := by
  unfold modExp
  rw [modExpBn_ok hn]
  rfl

theorem modAdd_ok {n : Nat} (hn : 0 < n) (a b : Nat) :
    modAdd a b n = .ok (toVec ((a + b) % n)) := by
  unfold modAdd modAddBn
  rw [nnmod_nat hn]
  rfl

/-- **The modular subtraction** takes off what was added, also where it wraps. -/
theorem modSubBn_added {n : Nat} (hn : 0 < n) (added value : Nat) :
    modSubBn ((added + value) % n) added n = .ok (value % n) := by
  have hmod : (((added + value) % n : Nat) - (added : Int)) % n = (value % n : Nat) := by
    push_cast
    rw [Int.emod_sub_emod, add_sub_cancel_left]
  unfold modSubBn
  rw [nnmod_ok hn, hmod]
  rfl

theorem validatePub_ok {n value : Nat} (hn : 0 < n) (hvalue : value % n ≠ 0) :
    validatePub value n = .ok () := by
  unfold validatePub
  rw [nnmod_nat hn]
  show (if value % n = 0 then fail ErrorStack.stack else pure ()) = _
  rw [if_neg hvalue]
  rfl

theorem length_toVec (value : Nat) : (toVec value).length = numBytes value :=
  BigEndian.length_toBytes _ _

/-! ## The two powers -/

theorem client_power (g a b u x n : Nat) :
    (g ^ b % n) ^ (a + u * x) % n = g ^ (b * (a + u * x)) % n := by
  rw [← Nat.pow_mod, ← Nat.pow_mul]

theorem server_power (g a b u x n : Nat) :
    ((g ^ a % n) * ((g ^ x % n) ^ u % n) % n) ^ b % n = g ^ (b * (a + u * x)) % n := by
  have hbase : (g ^ a % n) * ((g ^ x % n) ^ u % n) % n = g ^ (a + u * x) % n := by
    rw [← Nat.pow_mod, ← Nat.mul_mod, ← Nat.pow_mul, ← Nat.pow_add, Nat.mul_comm x u]
  rw [hbase, ← Nat.pow_mod, ← Nat.pow_mul, Nat.mul_comm b]

section

variable (sha512 : List UInt8 → Vector UInt8 64) (G : Group)

/-- `k` of the group. -/
def multiplier : Nat :=
  hashToBn sha512
    [toVec G.n, List.replicate ((toVec G.n).length - (toVec G.g).length) 0 ++ toVec G.g]

theorem computeK_ok : computeK sha512 G.n G.g = .ok (multiplier sha512 G) := by
  have hshorter := G.shorter
  rw [← length_toVec, ← length_toVec] at hshorter
  unfold computeK multiplier
  dsimp only
  rw [if_neg (by omega)]

/-! ## The public values -/

theorem clientPublic_ok (a : List UInt8) :
    Client.computePublicEphemeral G a = .ok (toVec (G.g ^ fromSlice a % G.n)) :=
  modExp_ok G.positive _ _

theorem computeVerifier_ok (username password salt : List UInt8) :
    Client.computeVerifier sha512 G username password salt =
      .ok (toVec (G.g ^ computeX sha512 username password salt % G.n)) :=
  modExp_ok G.positive _ _

/-- The public value of the server, for a verifier. -/
def serverValue (b v : Nat) : Nat := (multiplier sha512 G * v % G.n + G.g ^ b % G.n) % G.n

theorem serverPublic_ok (b verifier : List UInt8) :
    Server.computePublicEphemeral sha512 G b verifier =
      .ok (toVec (serverValue sha512 G (fromSlice b) (fromSlice verifier))) := by
  unfold Server.computePublicEphemeral
  dsimp only
  rw [computeK_ok, ok_bind, modExpBn_ok G.positive, ok_bind, modMulBn_ok G.positive, ok_bind,
    modAdd_ok G.positive]
  rfl

/-! ## The keys -/

/-- **The key of the client.** -/
theorem processReply_ok (a username password salt : List UInt8) (b : Nat)
    (hb : serverValue sha512 G b (G.g ^ computeX sha512 username password salt % G.n) % G.n ≠ 0) :
    Client.processReply sha512 G a username password salt
        (toVec (serverValue sha512 G b (G.g ^ computeX sha512 username password salt % G.n))) =
      .ok ⟨toVec (G.g ^ (b * (fromSlice a + hashToBn sha512 [toVec (G.g ^ fromSlice a % G.n),
        toVec (serverValue sha512 G b (G.g ^ computeX sha512 username password salt % G.n))] *
          computeX sha512 username password salt)) % G.n)⟩ := by
  unfold Client.processReply
  dsimp only
  rw [modExp_ok G.positive, ok_bind, fromSlice_toVec, validatePub_ok G.positive hb, ok_bind,
    computeK_ok, ok_bind, modExpBn_ok G.positive, ok_bind, modMulBn_ok G.positive, ok_bind]
  have hbase : modSubBn
      (serverValue sha512 G b (G.g ^ computeX sha512 username password salt % G.n))
      (multiplier sha512 G * (G.g ^ computeX sha512 (identityUsername username) password salt % G.n) %
        G.n) G.n = .ok (G.g ^ b % G.n % G.n) := modSubBn_added G.positive _ _
  rw [hbase, ok_bind, Nat.mod_mod, modExp_ok G.positive, ok_bind]
  unfold mulBn addBn identityUsername
  rw [client_power]
  rfl

/-- **The key of the server.** -/
theorem processReplyLegacyWithBPub_ok (b : List UInt8) (a x : Nat) (bPub : List UInt8)
    (ha : G.g ^ a % G.n % G.n ≠ 0) :
    Server.processReplyLegacyWithBPub sha512 G b (toVec (G.g ^ x % G.n)) (toVec (G.g ^ a % G.n)) bPub =
      .ok ⟨toVec (G.g ^ (fromSlice b * (a + hashToBn sha512 [toVec (G.g ^ a % G.n), bPub] * x)) %
        G.n)⟩ := by
  unfold Server.processReplyLegacyWithBPub Server.processReplyLegacyWithBPubInner
  dsimp only
  rw [fromSlice_toVec, fromSlice_toVec, validatePub_ok G.positive ha, ok_bind,
    modExpBn_ok G.positive, ok_bind, modMulBn_ok G.positive, ok_bind, modExp_ok G.positive, ok_bind,
    server_power]
  rfl

theorem processReplyLegacy_eq (b verifier aPub : List UInt8) :
    Server.processReplyLegacy sha512 G b verifier aPub =
      Server.computePublicEphemeral sha512 G b verifier >>= fun bPub =>
        Server.processReplyLegacyWithBPub sha512 G b verifier aPub bPub := by
  rw [serverPublic_ok, ok_bind]
  unfold Server.processReplyLegacy
  dsimp only
  rw [computeK_ok, ok_bind, modExpBn_ok G.positive, ok_bind, modMulBn_ok G.positive, ok_bind,
    modAdd_ok G.positive, ok_bind]
  rfl

/-- **Key agreement.** With the verifier of the same user, password and salt, and public values
that are not zero modulo the modulus, both sides return the same key; and for any verifier and
public value the server returns the same with the public value of its own as with the one it makes
again. -/
theorem key_agreement (username password salt a b : List UInt8) :
    (∃ verifier aPub bPub,
      Client.computeVerifier sha512 G username password salt = .ok verifier ∧
      Client.computePublicEphemeral G a = .ok aPub ∧
      Server.computePublicEphemeral sha512 G b verifier = .ok bPub ∧
      (fromSlice aPub % G.n ≠ 0 → fromSlice bPub % G.n ≠ 0 →
        ∃ key, Client.processReply sha512 G a username password salt bPub = .ok ⟨key⟩ ∧
          Server.processReplyLegacyWithBPub sha512 G b verifier aPub bPub = .ok ⟨key⟩)) ∧
      ∀ b' verifier aPub, ∃ bPub,
        Server.computePublicEphemeral sha512 G b' verifier = .ok bPub ∧
          Server.processReplyLegacy sha512 G b' verifier aPub =
            Server.processReplyLegacyWithBPub sha512 G b' verifier aPub bPub := by
  constructor
  · refine ⟨_, _, _, computeVerifier_ok sha512 G username password salt, clientPublic_ok G a,
      serverPublic_ok sha512 G b _, fun ha hb => ?_⟩
    rw [fromSlice_toVec] at ha
    rw [fromSlice_toVec, fromSlice_toVec] at hb
    have hclient := processReply_ok sha512 G a username password salt (fromSlice b) hb
    rw [fromSlice_toVec]
    exact ⟨_, hclient, processReplyLegacyWithBPub_ok sha512 G b (fromSlice a)
      (computeX sha512 username password salt) _ ha⟩
  · intro b' verifier aPub
    refine ⟨_, serverPublic_ok sha512 G b' verifier, ?_⟩
    rw [processReplyLegacy_eq, serverPublic_ok, ok_bind]

/-- A small group, in which every digest is two. -/
theorem key_agreement_small :
    ∃ (G : Group) (sha512 : List UInt8 → Vector UInt8 64) (verifier aPub bPub key : List UInt8),
      Client.computeVerifier sha512 G [1] [2] [3] = .ok verifier ∧
      Client.computePublicEphemeral G [6] = .ok aPub ∧
      Server.computePublicEphemeral sha512 G [7] verifier = .ok bPub ∧
      Client.processReply sha512 G [6] [1] [2] [3] bPub = .ok ⟨key⟩ ∧
      Server.processReplyLegacyWithBPub sha512 G [7] verifier aPub bPub = .ok ⟨key⟩ := by
  let G : Group := ⟨23, 5, by decide, by decide⟩
  let sha512 : List UInt8 → Vector UInt8 64 := fun _ => (Vector.replicate 64 0).set 63 2
  obtain ⟨⟨verifier, aPub, bPub, hverifier, ha, hb, hkey⟩, -⟩ :=
    key_agreement sha512 G [1] [2] [3] [6] [7]
  have hv : Client.computeVerifier sha512 G [1] [2] [3] = .ok [2] := by decide
  obtain rfl := Except.ok.inj (hverifier.symm.trans hv)
  have hA : Client.computePublicEphemeral G [6] = .ok [8] := by decide
  obtain rfl := Except.ok.inj (ha.symm.trans hA)
  have hB : Server.computePublicEphemeral sha512 G [7] [2] = .ok [21] := by decide
  obtain rfl := Except.ok.inj (hb.symm.trans hB)
  obtain ⟨key, hclient, hserver⟩ := hkey (by decide) (by decide)
  exact ⟨G, sha512, [2], [8], [21], key, hverifier, ha, hb, hclient, hserver⟩

end

end Catplay.Analysis.Hap.KeyAgreement
