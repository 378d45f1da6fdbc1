import Catplay.Library.Checked
import Catplay.Library.Endian

/-!
# Secure remote password (backend/srp_openssl.rs)

`Client` and `Server` of the pair setup. The operations on big numbers are exact, an operation
modulo zero fails, and SHA-512 is a parameter. The group, which `group_n` and `group_g` fix, is a
parameter as well.
-/

set_option autoImplicit false

namespace Catplay.Model.Hap.Srp

open Catplay.Library Catplay.Library.Checked

inductive ErrorStack
  | stack
  deriving DecidableEq, Repr

/-! ## Big numbers -/

/-- `BN_num_bytes`. -/
def numBytes (value : Nat) : Nat := if value = 0 then 0 else value.log2 / 8 + 1

/-- `to_vec`: no zero bytes in front. -/
def toVec (value : Nat) : List UInt8 := BigEndian.toBytes (numBytes value) value

/-- `from_slice`. -/
def fromSlice (bytes : List UInt8) : Nat := BigEndian.ofBytes bytes

def addBn (a b : Nat) : Nat := a + b

def mulBn (a b : Nat) : Nat := a * b

/-- `nnmod`: the remainder that is not negative. -/
def nnmod (a : Int) (n : Nat) : Exec ErrorStack Nat :=
  if n = 0 then fail .stack else .ok (a % n).toNat

def modAddBn (a b n : Nat) : Exec ErrorStack Nat := nnmod (a + b : Nat) n

def modSubBn (a b n : Nat) : Exec ErrorStack Nat := nnmod ((a : Int) - b) n

def modMulBn (a b n : Nat) : Exec ErrorStack Nat := nnmod (a * b : Nat) n

def modExpBn (base exp modulus : Nat) : Exec ErrorStack Nat := nnmod (base ^ exp : Nat) modulus

def modAdd (a b n : Nat) : Exec ErrorStack (List UInt8) := do
  let out ← modAddBn a b n
  pure (toVec out)

def modExp (base exp modulus : Nat) : Exec ErrorStack (List UInt8) := do
  let out ← modExpBn base exp modulus
  pure (toVec out)

/-! ## The protocol -/

/-- A modulus, and a generator that is not longer. -/
structure Group where
  n : Nat
  g : Nat
  positive : 0 < n
  shorter : numBytes g ≤ numBytes n

structure ClientVerifier where
  key : List UInt8
  deriving DecidableEq, Repr

structure LegacyServerVerifier where
  key : List UInt8
  deriving DecidableEq, Repr

section

variable (sha512 : List UInt8 → Vector UInt8 64)

def sha512Parts (parts : List (List UInt8)) : List UInt8 := (sha512 parts.flatten).toList

def hashToBn (parts : List (List UInt8)) : Nat := fromSlice (sha512Parts sha512 parts)

/-- With `SRP_USERNAME_IN_X`. -/
def identityUsername (username : List UInt8) : List UInt8 := username

/-- `b":"` -/
def colon : List UInt8 := [0x3a]

def computeX (username password salt : List UInt8) : Nat :=
  let identityHash := sha512Parts sha512 [username, colon, password]
  hashToBn sha512 [salt, identityHash]

/-- The generator is padded to the length of the modulus; a longer one panics. -/
def computeK (n g : Nat) : Exec ErrorStack Nat :=
  let nBytes := toVec n
  let gBytes := toVec g
  if nBytes.length < gBytes.length then .error .panic
  else
    let offset := nBytes.length - gBytes.length
    let paddedG := List.replicate offset 0 ++ gBytes
    .ok (hashToBn sha512 [nBytes, paddedG])

def validatePub (value modulus : Nat) : Exec ErrorStack Unit := do
  let reduced ← nnmod value modulus
  if reduced = 0 then fail .stack else pure ()

variable (G : Group)

namespace Client

def computeVerifier (username password salt : List UInt8) : Exec ErrorStack (List UInt8) :=
  let x := computeX sha512 (identityUsername username) password salt
  modExp G.g x G.n

def computePublicEphemeral (a : List UInt8) : Exec ErrorStack (List UInt8) :=
  modExp G.g (fromSlice a) G.n

def processReply (aBytes username password salt bPubBytes : List UInt8) :
    Exec ErrorStack ClientVerifier := do
  let n := G.n
  let g := G.g
  let a := fromSlice aBytes
  let aPubBytes ← modExp g a n
  let bPub := fromSlice bPubBytes
  validatePub bPub n
  let u := hashToBn sha512 [aPubBytes, bPubBytes]
  let k ← computeK sha512 n g
  let x := computeX sha512 (identityUsername username) password salt
  let gX ← modExpBn g x n
  let ux := mulBn u x
  let exp := addBn a ux
  let kgx ← modMulBn k gX n
  let base ← modSubBn bPub kgx n
  let key ← modExp base exp n
  pure ⟨key⟩

end Client

namespace Server

def computePublicEphemeral (bBytes verifier : List UInt8) : Exec ErrorStack (List UInt8) := do
  let n := G.n
  let g := G.g
  let b := fromSlice bBytes
  let v := fromSlice verifier
  let k ← computeK sha512 n g
  let gv ← modExpBn g b n
  let kv ← modMulBn k v n
  modAdd kv gv n

def processReplyLegacyWithBPubInner (n b v : Nat) (aPubBytes bPubBytes : List UInt8) :
    Exec ErrorStack LegacyServerVerifier := do
  let aPub := fromSlice aPubBytes
  validatePub aPub n
  let u := hashToBn sha512 [aPubBytes, bPubBytes]
  let vU ← modExpBn v u n
  let base ← modMulBn aPub vU n
  let key ← modExp base b n
  pure ⟨key⟩

def processReplyLegacy (bBytes verifier aPubBytes : List UInt8) :
    Exec ErrorStack LegacyServerVerifier := do
  let n := G.n
  let g := G.g
  let b := fromSlice bBytes
  let v := fromSlice verifier
  let k ← computeK sha512 n g
  let gB ← modExpBn g b n
  let kv ← modMulBn k v n
  let bPubBytes ← modAdd kv gB n
  processReplyLegacyWithBPubInner sha512 n b v aPubBytes bPubBytes

def processReplyLegacyWithBPub (bBytes verifier aPubBytes bPubBytes : List UInt8) :
    Exec ErrorStack LegacyServerVerifier :=
  let n := G.n
  let b := fromSlice bBytes
  let v := fromSlice verifier
  processReplyLegacyWithBPubInner sha512 n b v aPubBytes bPubBytes

end Server

end

end Catplay.Model.Hap.Srp
