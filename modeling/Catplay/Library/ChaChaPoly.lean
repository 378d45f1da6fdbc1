import Catplay.Library.Chunks
import Catplay.Library.Keystream
import Catplay.Library.Endian

/-!
# ChaCha20-Poly1305

The construction as it is defined: the block function of ChaCha20, its keystream as a function of
the position, Poly1305 as a polynomial modulo `2 ^ 130 - 5`, and the two put together for
authenticated encryption with associated data.
-/

set_option autoImplicit false

namespace Catplay.Library.ChaChaPoly

open Catplay.Library.Keystream

/-! ## ChaCha20 -/

local instance sixteenWords : NeZero 16 := ⟨by decide⟩

def rotate (x n : UInt32) : UInt32 := (x <<< n) ||| (x >>> (32 - n))

def quarterRound (s : Fin 16 → UInt32) (a b c d : Fin 16) : Fin 16 → UInt32 :=
  let s := Function.update s a (s a + s b)
  let s := Function.update s d (rotate (s d ^^^ s a) 16)
  let s := Function.update s c (s c + s d)
  let s := Function.update s b (rotate (s b ^^^ s c) 12)
  let s := Function.update s a (s a + s b)
  let s := Function.update s d (rotate (s d ^^^ s a) 8)
  let s := Function.update s c (s c + s d)
  Function.update s b (rotate (s b ^^^ s c) 7)

/-- Four columns, then four diagonals. -/
def innerBlock (s : Fin 16 → UInt32) : Fin 16 → UInt32 :=
  let s := quarterRound s 0 4 8 12
  let s := quarterRound s 1 5 9 13
  let s := quarterRound s 2 6 10 14
  let s := quarterRound s 3 7 11 15
  let s := quarterRound s 0 5 10 15
  let s := quarterRound s 1 6 11 12
  let s := quarterRound s 2 7 8 13
  quarterRound s 3 4 9 14

/-- The `i`-th word of some bytes. -/
def word (bytes : List UInt8) (i : Nat) : UInt32 :=
  .ofNat (LittleEndian.ofBytes ((bytes.drop (4 * i)).take 4))

def constants : Fin 4 → UInt32
  | 0 => 0x61707865
  | 1 => 0x3320646e
  | 2 => 0x79622d32
  | 3 => 0x6b206574

/-- Four constants, eight words of the key, the counter and three words of the nonce. -/
def initial (key nonce : List UInt8) (counter : UInt32) (i : Fin 16) : UInt32 :=
  if h : i < 4 then constants ⟨i, h⟩
  else if i < 12 then word key (i - 4)
  else if i = 12 then counter
  else word nonce (i - 13)

/-- Ten double rounds, with the initial state added. -/
def block (key nonce : List UInt8) (counter : UInt32) : List UInt8 :=
  let s := initial key nonce counter
  (List.finRange 16).flatMap fun i =>
    LittleEndian.toBytes 4 (Nat.repeat innerBlock 10 s i + s i).toNat

/-- The byte of the keystream at a position, when the first block has the given counter. -/
def keystream (key nonce : List UInt8) (counter : UInt32) (position : Nat) : UInt8 :=
  (block key nonce (counter + .ofNat (position / 64)))[position % 64]?.getD 0

def chacha20 (key nonce : List UInt8) (counter : UInt32) (data : List UInt8) : List UInt8 :=
  xorBytes data (window (keystream key nonce counter) 0 data.length)

/-! ## Poly1305 -/

def prime : Nat := 2 ^ 130 - 5

def clamp (r : Nat) : Nat := r &&& 0x0ffffffc0ffffffc0ffffffc0fffffff

/-- The number of up to 16 bytes: a one is put behind them. -/
def blockNumber (bytes : List UInt8) : Nat := LittleEndian.ofBytes (bytes ++ [1])

def accumulate (r acc : Nat) (bytes : List UInt8) : Nat := (acc + blockNumber bytes) * r % prime

def poly1305 (key message : List UInt8) : List UInt8 :=
  let r := clamp (LittleEndian.ofBytes (key.take 16))
  let s := LittleEndian.ofBytes ((key.drop 16).take 16)
  LittleEndian.toBytes 16 ((chunks 16 message).foldl (accumulate r) 0 + s)

/-! ## The two together -/

/-- Zeros up to the next multiple of 16. -/
def pad16 (data : List UInt8) : List UInt8 :=
  if data.length % 16 = 0 then [] else List.replicate (16 - data.length % 16) 0

def authenticated (aad ciphertext : List UInt8) : List UInt8 :=
  aad ++ pad16 aad ++ ciphertext ++ pad16 ciphertext ++ LittleEndian.toBytes 8 aad.length ++
    LittleEndian.toBytes 8 ciphertext.length

def tag (key nonce aad ciphertext : List UInt8) : List UInt8 :=
  poly1305 ((block key nonce 0).take 32) (authenticated aad ciphertext)

/-- The ciphertext and the tag. -/
def sealData (key nonce aad data : List UInt8) : List UInt8 × List UInt8 :=
  let ciphertext := chacha20 key nonce 1 data
  (ciphertext, tag key nonce aad ciphertext)

/-- The data, if the tag is right. -/
def openSealed (key nonce aad ciphertext expected : List UInt8) : Option (List UInt8) :=
  if expected = tag key nonce aad ciphertext then some (chacha20 key nonce 1 ciphertext) else none

end Catplay.Library.ChaChaPoly
