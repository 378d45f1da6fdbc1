import Catplay.Library.Chunks
import Catplay.Library.Endian

/-!
# The fast cipher

`core/catplay_hap/src/fast_chacha`: the backends in Rust, as they run without overflow checks and
with them.
-/

set_option autoImplicit false

/-!
## ChaCha20 and Poly1305

`core/catplay_hap/src/fast_chacha/{fallback_chacha20,fast_chacha20,fast_poly1305}.rs`, the backends
in Rust. A buffer is the list of its bytes.
-/

namespace Catplay.Model.Hap

open Catplay.Library

abbrev Key := Vector UInt8 32
abbrev NonceBytes := Vector UInt8 12
abbrev Tag := Vector UInt8 16

/-- `u32::from_le_bytes` of the four bytes at a position. -/
def wordAt (bytes : List UInt8) (position : Nat) : UInt32 :=
  .ofNat (LittleEndian.ofBytes ((bytes.drop position).take 4))

/-! ### ChaCha20 -/

def rotateLeft (x n : UInt32) : UInt32 := (x <<< n) ||| (x >>> (32 - n))

def quarterRound (state : Vector UInt32 16) (a b c d : Fin 16) : Vector UInt32 16 :=
  let state := state.set a (state[a] + state[b])
  let state := state.set d (rotateLeft (state[d] ^^^ state[a]) 16)
  let state := state.set c (state[c] + state[d])
  let state := state.set b (rotateLeft (state[b] ^^^ state[c]) 12)
  let state := state.set a (state[a] + state[b])
  let state := state.set d (rotateLeft (state[d] ^^^ state[a]) 8)
  let state := state.set c (state[c] + state[d])
  state.set b (rotateLeft (state[b] ^^^ state[c]) 7)

/-- The column rounds and the diagonal rounds. -/
def doubleRound (state : Vector UInt32 16) : Vector UInt32 16 :=
  let state := quarterRound state 0 4 8 12
  let state := quarterRound state 1 5 9 13
  let state := quarterRound state 2 6 10 14
  let state := quarterRound state 3 7 11 15
  let state := quarterRound state 0 5 10 15
  let state := quarterRound state 1 6 11 12
  let state := quarterRound state 2 7 8 13
  quarterRound state 3 4 9 14

/-- What `new_with_counter` sets up, with the words that `xor` puts in front. -/
def initialState (key : Key) (nonce : NonceBytes) (counter : UInt32) : Vector UInt32 16 :=
  let key := key.toList
  let nonce := nonce.toList
  #v[0x61707865, 0x3320646e, 0x79622d32, 0x6b206574,
    wordAt key 0, wordAt key 4, wordAt key 8, wordAt key 12,
    wordAt key 16, wordAt key 20, wordAt key 24, wordAt key 28,
    counter, wordAt nonce 0, wordAt nonce 4, wordAt nonce 8]

/-- The 64 bytes that `xor` puts on its data. -/
def chachaBlock (key : Key) (nonce : NonceBytes) (counter : UInt32) : List UInt8 :=
  let state := initialState key nonce counter
  let working := Nat.repeat doubleRound 10 state
  (working.zipWith (· + ·) state).toList.flatMap fun word => LittleEndian.toBytes 4 word.toNat

/-- `fallback`: one block after the other, the counter of 32 bits going up. -/
def applyBlocks (key : Key) (nonce : NonceBytes) : UInt32 → List (List UInt8) → List UInt8
  | _, [] => []
  | counter, chunk :: chunks =>
    chunk.zipWith (· ^^^ ·) (chachaBlock key nonce counter) ++
      applyBlocks key nonce (counter + 1) chunks

def applyKeystream (key : Key) (nonce : NonceBytes) (counter : UInt32) (data : List UInt8) :
    List UInt8 :=
  applyBlocks key nonce counter (chunks 64 data)

/-! ### Poly1305 -/

/-- `FallbackPoly1305State`: limbs of 26 bits. -/
structure Poly1305State where
  r : Vector UInt32 5
  h : Vector UInt32 5
  pad : Vector UInt32 4
  deriving DecidableEq, Repr

namespace Poly1305State

/-- The 26 bits of a limb. -/
def limbMask : UInt32 := 0x3ffffff

def new (key : List UInt8) : Poly1305State where
  r := #v[wordAt key 0 &&& limbMask, (wordAt key 3 >>> 2) &&& 0x3ffff03,
    (wordAt key 6 >>> 4) &&& 0x3ffc0ff, (wordAt key 9 >>> 6) &&& 0x3f03fff,
    (wordAt key 12 >>> 8) &&& 0x00fffff]
  h := #v[0, 0, 0, 0, 0]
  pad := #v[wordAt key 16, wordAt key 20, wordAt key 24, wordAt key 28]

/-- The limbs with those of a block added. -/
def addBlock (h : Vector UInt32 5) (block : List UInt8) (isPartial : Bool) : Vector UInt32 5 :=
  let hibit : UInt32 := if isPartial then 0 else 0x1000000
  #v[h[0] + (wordAt block 0 &&& limbMask), h[1] + ((wordAt block 3 >>> 2) &&& limbMask),
    h[2] + ((wordAt block 6 >>> 4) &&& limbMask), h[3] + ((wordAt block 9 >>> 6) &&& limbMask),
    h[4] + ((wordAt block 12 >>> 8) ||| hibit)]

/-- `d0` to `d4`: the product of limbs, before any carry. -/
def multiply (h r : Vector UInt32 5) : Vector UInt64 5 :=
  let h0 := h[0].toUInt64
  let h1 := h[1].toUInt64
  let h2 := h[2].toUInt64
  let h3 := h[3].toUInt64
  let h4 := h[4].toUInt64
  let r0 := r[0].toUInt64
  let r1 := r[1].toUInt64
  let r2 := r[2].toUInt64
  let r3 := r[3].toUInt64
  let r4 := r[4].toUInt64
  let s1 := (r[1] * 5).toUInt64
  let s2 := (r[2] * 5).toUInt64
  let s3 := (r[3] * 5).toUInt64
  let s4 := (r[4] * 5).toUInt64
  #v[h0 * r0 + h1 * s4 + h2 * s3 + h3 * s2 + h4 * s1,
    h0 * r1 + h1 * r0 + h2 * s4 + h3 * s3 + h4 * s2,
    h0 * r2 + h1 * r1 + h2 * r0 + h3 * s4 + h4 * s3,
    h0 * r3 + h1 * r2 + h2 * r1 + h3 * r0 + h4 * s4,
    h0 * r4 + h1 * r3 + h2 * r2 + h3 * r1 + h4 * r0]

/-- The carries of `compute_block`. -/
def carry (d : Vector UInt64 5) : Vector UInt32 5 :=
  let d0 := d[0]
  let d1 := d[1] + (d0 >>> 26).toUInt32.toUInt64
  let d2 := d[2] + (d1 >>> 26).toUInt32.toUInt64
  let d3 := d[3] + (d2 >>> 26).toUInt32.toUInt64
  let d4 := d[4] + (d3 >>> 26).toUInt32.toUInt64
  let h0 := (d0.toUInt32 &&& limbMask) + (d4 >>> 26).toUInt32 * 5
  #v[h0 &&& limbMask, (d1.toUInt32 &&& limbMask) + (h0 >>> 26), d2.toUInt32 &&& limbMask,
    d3.toUInt32 &&& limbMask, d4.toUInt32 &&& limbMask]

def computeBlock (self : Poly1305State) (block : List UInt8) (isPartial : Bool) :
    Poly1305State :=
  { self with h := carry (multiply (addBlock self.h block isPartial) self.r) }

/-- The carries of `finalize`, from `h1` around to `h1`. -/
def carryAround (h : Vector UInt32 5) : Vector UInt32 5 :=
  let h2 := h[2] + (h[1] >>> 26)
  let h3 := h[3] + (h2 >>> 26)
  let h4 := h[4] + (h3 >>> 26)
  let h0 := h[0] + (h4 >>> 26) * 5
  #v[h0 &&& limbMask, (h[1] &&& limbMask) + (h0 >>> 26), h2 &&& limbMask, h3 &&& limbMask,
    h4 &&& limbMask]

/-- `h` less `2^130 - 5`, if it is not below that. -/
def reduceOnce (h : Vector UInt32 5) : Vector UInt32 5 :=
  let g0 := h[0] + 5
  let g1 := h[1] + (g0 >>> 26)
  let g2 := h[2] + (g1 >>> 26)
  let g3 := h[3] + (g2 >>> 26)
  let g4 := h[4] + (g3 >>> 26) - 0x4000000
  let mask := (g4 >>> 31) - 1
  #v[(h[0] &&& ~~~mask) ||| (g0 &&& limbMask &&& mask),
    (h[1] &&& ~~~mask) ||| (g1 &&& limbMask &&& mask),
    (h[2] &&& ~~~mask) ||| (g2 &&& limbMask &&& mask),
    (h[3] &&& ~~~mask) ||| (g3 &&& limbMask &&& mask),
    (h[4] &&& ~~~mask) ||| (g4 &&& mask)]

/-- The 128 lowest bits in words of 32. -/
def pack (h : Vector UInt32 5) : Vector UInt32 4 :=
  #v[h[0] ||| (h[1] <<< 26), (h[1] >>> 6) ||| (h[2] <<< 20), (h[2] >>> 12) ||| (h[3] <<< 14),
    (h[3] >>> 18) ||| (h[4] <<< 8)]

/-- The sum of words, with its carries. -/
def addWords (h pad : Vector UInt32 4) : Vector UInt64 4 :=
  let f0 := h[0].toUInt64 + pad[0].toUInt64
  let f1 := h[1].toUInt64 + pad[1].toUInt64 + (f0 >>> 32)
  let f2 := h[2].toUInt64 + pad[2].toUInt64 + (f1 >>> 32)
  let f3 := h[3].toUInt64 + pad[3].toUInt64 + (f2 >>> 32)
  #v[f0, f1, f2, f3]

/-- `to_le_bytes` of the lower half. -/
def wordBytes (f : UInt64) : Vector UInt8 4 :=
  ⟨(LittleEndian.toBytes 4 f.toUInt32.toNat).toArray, by
    rw [List.size_toArray, LittleEndian.length_toBytes]⟩

def finalize (self : Poly1305State) : Tag :=
  let f := addWords (pack (reduceOnce (carryAround self.h))) self.pad
  wordBytes f[0] ++ wordBytes f[1] ++ wordBytes f[2] ++ wordBytes f[3]

end Poly1305State

/-- The state and the bytes that do not fill a block yet. -/
structure FastPoly1305 where
  state : Poly1305State
  leftover : List UInt8
  deriving DecidableEq, Repr

namespace FastPoly1305

def new (key : List UInt8) : FastPoly1305 where
  state := .new key
  leftover := []

def update (self : FastPoly1305) (data : List UInt8) : FastPoly1305 :=
  if data.isEmpty then self
  else
    let (self, input) :=
      if self.leftover.length ≠ 0 then
        let want := min (16 - self.leftover.length) data.length
        let buffer := self.leftover ++ data.take want
        if buffer.length = 16 then
          (⟨self.state.computeBlock buffer false, []⟩, data.drop want)
        else (⟨self.state, buffer⟩, data.drop want)
      else (self, data)
    let (blocks, rest) := chunksExact 16 input
    let state := blocks.foldl (·.computeBlock · false) self.state
    if rest.isEmpty then ⟨state, self.leftover⟩ else ⟨state, rest⟩

/-- A block that is not full ends with a one and zeros. -/
def finalize (self : FastPoly1305) : Tag :=
  let state :=
    if self.leftover.length ≠ 0 then
      self.state.computeBlock
        (self.leftover ++ [1] ++ List.replicate (16 - self.leftover.length - 1) 0) true
    else self.state
  state.finalize

end FastPoly1305

end Catplay.Model.Hap

/-!
## Poly1305 with checked arithmetic

The backend in Rust of `core/catplay_hap/src/fast_chacha/fast_poly1305.rs` once more, as it runs
with overflow checks: `none` stands for a sum or a product that does not fit its width, and for a
carry that is cut off. Only the two subtractions that the source has wrap around still do.
-/

namespace Catplay.Model.Hap

open Catplay.Library

def checkedAdd (a b : UInt32) : Option UInt32 :=
  if a.toNat + b.toNat < 2 ^ 32 then some (a + b) else none

def checkedMul (a b : UInt32) : Option UInt32 :=
  if a.toNat * b.toNat < 2 ^ 32 then some (a * b) else none

def checkedAdd64 (a b : UInt64) : Option UInt64 :=
  if a.toNat + b.toNat < 2 ^ 64 then some (a + b) else none

def checkedMul64 (a b : UInt64) : Option UInt64 :=
  if a.toNat * b.toNat < 2 ^ 64 then some (a * b) else none

/-- A carry, `as u32`. -/
def checkedCarry (c : UInt64) : Option UInt32 :=
  if c.toNat < 2 ^ 32 then some c.toUInt32 else none

namespace Poly1305State

def addBlockChecked (h : Vector UInt32 5) (block : List UInt8) (isPartial : Bool) :
    Option (Vector UInt32 5) := do
  let hibit : UInt32 := if isPartial then 0 else 0x1000000
  let h0 ← checkedAdd h[0] (wordAt block 0 &&& limbMask)
  let h1 ← checkedAdd h[1] ((wordAt block 3 >>> 2) &&& limbMask)
  let h2 ← checkedAdd h[2] ((wordAt block 6 >>> 4) &&& limbMask)
  let h3 ← checkedAdd h[3] ((wordAt block 9 >>> 6) &&& limbMask)
  let h4 ← checkedAdd h[4] ((wordAt block 12 >>> 8) ||| hibit)
  return #v[h0, h1, h2, h3, h4]

/-- One of `d0` to `d4`: five products and their sum, from left to right. -/
def dotChecked (h0 h1 h2 h3 h4 r0 r1 r2 r3 r4 : UInt64) : Option UInt64 := do
  let p0 ← checkedMul64 h0 r0
  let p1 ← checkedMul64 h1 r1
  let d ← checkedAdd64 p0 p1
  let p2 ← checkedMul64 h2 r2
  let d ← checkedAdd64 d p2
  let p3 ← checkedMul64 h3 r3
  let d ← checkedAdd64 d p3
  let p4 ← checkedMul64 h4 r4
  checkedAdd64 d p4

def multiplyChecked (h r : Vector UInt32 5) : Option (Vector UInt64 5) := do
  let h0 := h[0].toUInt64
  let h1 := h[1].toUInt64
  let h2 := h[2].toUInt64
  let h3 := h[3].toUInt64
  let h4 := h[4].toUInt64
  let r0 := r[0].toUInt64
  let r1 := r[1].toUInt64
  let r2 := r[2].toUInt64
  let r3 := r[3].toUInt64
  let r4 := r[4].toUInt64
  let s1 ← checkedMul r[1] 5
  let s2 ← checkedMul r[2] 5
  let s3 ← checkedMul r[3] 5
  let s4 ← checkedMul r[4] 5
  let s1 := s1.toUInt64
  let s2 := s2.toUInt64
  let s3 := s3.toUInt64
  let s4 := s4.toUInt64
  let d0 ← dotChecked h0 h1 h2 h3 h4 r0 s4 s3 s2 s1
  let d1 ← dotChecked h0 h1 h2 h3 h4 r1 r0 s4 s3 s2
  let d2 ← dotChecked h0 h1 h2 h3 h4 r2 r1 r0 s4 s3
  let d3 ← dotChecked h0 h1 h2 h3 h4 r3 r2 r1 r0 s4
  let d4 ← dotChecked h0 h1 h2 h3 h4 r4 r3 r2 r1 r0
  return #v[d0, d1, d2, d3, d4]

def carryChecked (d : Vector UInt64 5) : Option (Vector UInt32 5) := do
  let d0 := d[0]
  let c ← checkedCarry (d0 >>> 26)
  let d1 ← checkedAdd64 d[1] c.toUInt64
  let c ← checkedCarry (d1 >>> 26)
  let d2 ← checkedAdd64 d[2] c.toUInt64
  let c ← checkedCarry (d2 >>> 26)
  let d3 ← checkedAdd64 d[3] c.toUInt64
  let c ← checkedCarry (d3 >>> 26)
  let d4 ← checkedAdd64 d[4] c.toUInt64
  let c ← checkedCarry (d4 >>> 26)
  let fiveFold ← checkedMul c 5
  let h0 ← checkedAdd (d0.toUInt32 &&& limbMask) fiveFold
  let h1 ← checkedAdd (d1.toUInt32 &&& limbMask) (h0 >>> 26)
  return #v[h0 &&& limbMask, h1, d2.toUInt32 &&& limbMask, d3.toUInt32 &&& limbMask,
    d4.toUInt32 &&& limbMask]

def computeBlockChecked (self : Poly1305State) (block : List UInt8) (isPartial : Bool) :
    Option Poly1305State := do
  let h ← addBlockChecked self.h block isPartial
  let d ← multiplyChecked h self.r
  let h ← carryChecked d
  return { self with h }

def carryAroundChecked (h : Vector UInt32 5) : Option (Vector UInt32 5) := do
  let h2 ← checkedAdd h[2] (h[1] >>> 26)
  let h3 ← checkedAdd h[3] (h2 >>> 26)
  let h4 ← checkedAdd h[4] (h3 >>> 26)
  let fiveFold ← checkedMul (h4 >>> 26) 5
  let h0 ← checkedAdd h[0] fiveFold
  let h1 ← checkedAdd (h[1] &&& limbMask) (h0 >>> 26)
  return #v[h0 &&& limbMask, h1, h2 &&& limbMask, h3 &&& limbMask, h4 &&& limbMask]

/-- The additions are `wrapping_add` in the source, and checked here all the same. -/
def reduceOnceChecked (h : Vector UInt32 5) : Option (Vector UInt32 5) := do
  let g0 ← checkedAdd h[0] 5
  let g1 ← checkedAdd h[1] (g0 >>> 26)
  let g2 ← checkedAdd h[2] (g1 >>> 26)
  let g3 ← checkedAdd h[3] (g2 >>> 26)
  let sum ← checkedAdd h[4] (g3 >>> 26)
  let g4 := sum - 0x4000000
  let mask := (g4 >>> 31) - 1
  return #v[(h[0] &&& ~~~mask) ||| (g0 &&& limbMask &&& mask),
    (h[1] &&& ~~~mask) ||| (g1 &&& limbMask &&& mask),
    (h[2] &&& ~~~mask) ||| (g2 &&& limbMask &&& mask),
    (h[3] &&& ~~~mask) ||| (g3 &&& limbMask &&& mask),
    (h[4] &&& ~~~mask) ||| (g4 &&& mask)]

def addWordsChecked (h pad : Vector UInt32 4) : Option (Vector UInt64 4) := do
  let f0 ← checkedAdd64 h[0].toUInt64 pad[0].toUInt64
  let f1 ← checkedAdd64 h[1].toUInt64 pad[1].toUInt64
  let f1 ← checkedAdd64 f1 (f0 >>> 32)
  let f2 ← checkedAdd64 h[2].toUInt64 pad[2].toUInt64
  let f2 ← checkedAdd64 f2 (f1 >>> 32)
  let f3 ← checkedAdd64 h[3].toUInt64 pad[3].toUInt64
  let f3 ← checkedAdd64 f3 (f2 >>> 32)
  return #v[f0, f1, f2, f3]

def finalizeChecked (self : Poly1305State) : Option Tag := do
  let h ← carryAroundChecked self.h
  let h ← reduceOnceChecked h
  let f ← addWordsChecked (pack h) self.pad
  return wordBytes f[0] ++ wordBytes f[1] ++ wordBytes f[2] ++ wordBytes f[3]

end Poly1305State

namespace FastPoly1305

def updateChecked (self : FastPoly1305) (data : List UInt8) : Option FastPoly1305 :=
  if data.isEmpty then some self
  else do
    let (self, input) ←
      if self.leftover.length ≠ 0 then
        let want := min (16 - self.leftover.length) data.length
        let buffer := self.leftover ++ data.take want
        if buffer.length = 16 then do
          let state ← self.state.computeBlockChecked buffer false
          pure (⟨state, []⟩, data.drop want)
        else pure (⟨self.state, buffer⟩, data.drop want)
      else pure (self, data)
    let (blocks, rest) := chunksExact 16 input
    let state ← blocks.foldlM (·.computeBlockChecked · false) self.state
    if rest.isEmpty then pure ⟨state, self.leftover⟩ else pure ⟨state, rest⟩

def finalizeChecked (self : FastPoly1305) : Option Tag := do
  let state ←
    if self.leftover.length ≠ 0 then
      self.state.computeBlockChecked
        (self.leftover ++ [1] ++ List.replicate (16 - self.leftover.length - 1) 0) true
    else pure self.state
  state.finalizeChecked

/-- A key, any number of calls of `update`, and `finalize`. -/
def authenticateChecked (key : Key) (pieces : List (List UInt8)) : Option Tag := do
  let poly ← pieces.foldlM updateChecked (.new key.toList)
  poly.finalizeChecked

end FastPoly1305

end Catplay.Model.Hap

/-! ### What limbs and words stand for -/

namespace Catplay.Analysis.Hap

/-- The words of a state by their number. -/
def wordsOf (state : Vector UInt32 16) (i : Fin 16) : UInt32 := state[i]

/-- The number that limbs of 26 bits stand for. -/
def value (h : Vector UInt32 5) : Nat :=
  h[0].toNat + 2 ^ 26 * h[1].toNat + 2 ^ 52 * h[2].toNat + 2 ^ 78 * h[3].toNat +
    2 ^ 104 * h[4].toNat

/-- All limbs are reduced. -/
structure Reduced (h : Vector UInt32 5) : Prop where
  limb0 : h[0].toNat < 2 ^ 26
  limb1 : h[1].toNat < 2 ^ 26
  limb2 : h[2].toNat < 2 ^ 26
  limb3 : h[3].toNat < 2 ^ 26
  limb4 : h[4].toNat < 2 ^ 26

/-- The limbs between two blocks: the second one may be a little larger. -/
structure Settled (h : Vector UInt32 5) : Prop where
  limb0 : h[0].toNat < 2 ^ 26
  limb1 : h[1].toNat < 2 ^ 26 + 2 ^ 7
  limb2 : h[2].toNat < 2 ^ 26
  limb3 : h[3].toNat < 2 ^ 26
  limb4 : h[4].toNat < 2 ^ 26

/-- What `multiply` leaves for the carries. -/
structure Products (d : Vector UInt64 5) : Prop where
  d0 : d[0].toNat < 26 * 2 ^ 53
  d1 : d[1].toNat < 26 * 2 ^ 53
  d2 : d[2].toNat < 26 * 2 ^ 53
  d3 : d[3].toNat < 26 * 2 ^ 53
  d4 : d[4].toNat < 6 * 2 ^ 53

def value64 (d : Vector UInt64 5) : Nat :=
  d[0].toNat + 2 ^ 26 * d[1].toNat + 2 ^ 52 * d[2].toNat + 2 ^ 78 * d[3].toNat +
    2 ^ 104 * d[4].toNat

/-- The limbs with those of a block added. -/
structure Added (h : Vector UInt32 5) : Prop where
  limb0 : h[0].toNat < 2 ^ 27 + 2 ^ 7
  limb1 : h[1].toNat < 2 ^ 27 + 2 ^ 7
  limb2 : h[2].toNat < 2 ^ 27 + 2 ^ 7
  limb3 : h[3].toNat < 2 ^ 27 + 2 ^ 7
  limb4 : h[4].toNat < 2 ^ 27 + 2 ^ 7

/-- What the limbs of a product are. -/
structure Multiplied (h r : Vector UInt32 5) (d : Vector UInt64 5) : Prop where
  limb0 : d[0].toNat = h[0].toNat * r[0].toNat + h[1].toNat * (r[4].toNat * 5) +
    h[2].toNat * (r[3].toNat * 5) + h[3].toNat * (r[2].toNat * 5) + h[4].toNat * (r[1].toNat * 5)
  limb1 : d[1].toNat = h[0].toNat * r[1].toNat + h[1].toNat * r[0].toNat +
    h[2].toNat * (r[4].toNat * 5) + h[3].toNat * (r[3].toNat * 5) + h[4].toNat * (r[2].toNat * 5)
  limb2 : d[2].toNat = h[0].toNat * r[2].toNat + h[1].toNat * r[1].toNat +
    h[2].toNat * r[0].toNat + h[3].toNat * (r[4].toNat * 5) + h[4].toNat * (r[3].toNat * 5)
  limb3 : d[3].toNat = h[0].toNat * r[3].toNat + h[1].toNat * r[2].toNat +
    h[2].toNat * r[1].toNat + h[3].toNat * r[0].toNat + h[4].toNat * (r[4].toNat * 5)
  limb4 : d[4].toNat = h[0].toNat * r[4].toNat + h[1].toNat * r[3].toNat +
    h[2].toNat * r[2].toNat + h[3].toNat * r[1].toNat + h[4].toNat * r[0].toNat

/-- The number that words of 32 bits stand for. -/
def value32 (w : Vector UInt32 4) : Nat :=
  w[0].toNat + 2 ^ 32 * w[1].toNat + 2 ^ 64 * w[2].toNat + 2 ^ 96 * w[3].toNat

end Catplay.Analysis.Hap
