import Catplay.Library.Checked
import Mathlib.Data.UInt

/-!
# Bits of an RBSP

`c2a/catplay_fb/src/carplay_helpers/{bit_reader,bit_writer}.rs`.
-/

set_option autoImplicit false

/-!
## Reading bits (c2a/catplay_fb/src/carplay_helpers/bit_reader.rs)

The reader of an RBSP, with the decoder of the crate `exp_golomb` as a parameter
(`ExpGolomb`). A bit is a `u8`, a field a `u32`. A reader is a state, so that `?` and the
sequence of reads are those of the monad `StateT BitReader`.
-/

namespace Catplay.Model.Fb

open Catplay.Library.Checked

/-- The variant of `H264FrameBufferError` that a rewrite fails with. -/
inductive H264FrameBufferError
  | x264BitstreamRewrite (reason : String)
  deriving DecidableEq, Repr

abbrev RewriteResult (α : Type) := Exec H264FrameBufferError α

/-- `Err(H264FrameBufferError::X264BitstreamRewrite(reason))`. -/
def rewriteError {α : Type} (reason : String) : RewriteResult α :=
  fail (.x264BitstreamRewrite reason)

/-- The crate `exp_golomb`: the types of its decoder and its encoder, and what the source calls.
`next_unsigned` gives a `u64`, `next_signed` an `i64`, and `close` the buffer with the byte and
the bit behind what was put. -/
structure ExpGolomb where
  Decoder : Type
  Encoder : Type
  newDecoder : List UInt8 → Nat → Option Decoder
  nextUnsigned : Decoder → Option Nat
  nextSigned : Decoder → Option Int
  newEncoder : List UInt8 → Nat → Option Encoder
  putUnsigned : Encoder → Nat → Option Encoder
  close : Encoder → List UInt8 × Nat × Nat

structure BitReader where
  data : List UInt8
  pos : Nat
  deriving DecidableEq, Repr

abbrev Read (α : Type) := StateT BitReader (Exec H264FrameBufferError) α

variable {σ α : Type}

/-- `if condition { return Err(..) }`. -/
def failIf (condition : Prop) [Decidable condition] (reason : String) :
    StateT σ (Exec H264FrameBufferError) Unit :=
  if condition then rewriteError reason else pure ()

/-- `if condition { .. }`. -/
def onlyIf (condition : Prop) [Decidable condition]
    (x : StateT σ (Exec H264FrameBufferError) α) : StateT σ (Exec H264FrameBufferError) Unit :=
  if condition then discard x else pure ()

namespace BitReader

def bit : Read UInt8 := fun r => do
  let byte ← orFail r.data[r.pos / 8]? (.x264BitstreamRewrite "truncated RBSP")
  .ok ((byte >>> UInt8.ofNat (7 - r.pos % 8)) &&& 1, { r with pos := r.pos + 1 })

/-- The rounds of `bits` that are left, with the bits before in `value`. -/
def bitsLoop : Nat → Nat → Read Nat
  | 0, value => pure value
  | count + 1, value => do
    let b ← bit
    bitsLoop count (value <<< 1 ||| b.toNat)

def bits (count : Nat) : Read Nat := do
  failIf (count > 32) "bit field is too wide"
  bitsLoop count 0

/-- `exp_golomb_bit_len`: `code_num` has `64 - leading_zeros` significant bits. -/
def expGolombBitLen (value : Nat) : RewriteResult Nat :=
  if value + 1 < 2 ^ 64 then .ok (((value + 1).log2 + 1) * 2 - 1)
  else rewriteError "Exp-Golomb value is too large"

/-- `&self.data[from..]`; beyond the end it panics. -/
def sliceFrom (data : List UInt8) (start : Nat) : RewriteResult (List UInt8) :=
  slice data start data.length

def ue (crate : ExpGolomb) : Read Nat := fun r => do
  let rest ← sliceFrom r.data (r.pos / 8)
  let decoder ← orFail (crate.newDecoder rest (r.pos % 8))
    (.x264BitstreamRewrite "truncated Exp-Golomb value")
  let value ← orFail (crate.nextUnsigned decoder)
    (.x264BitstreamRewrite "invalid Exp-Golomb value")
  let len ← expGolombBitLen value
  -- `try_into` to `u32`
  if value < 2 ^ 32 then .ok (value, { r with pos := r.pos + len })
  else rewriteError "Exp-Golomb value exceeds u32"

def se (crate : ExpGolomb) : Read Int := fun r => do
  let rest ← sliceFrom r.data (r.pos / 8)
  let decoder ← orFail (crate.newDecoder rest (r.pos % 8))
    (.x264BitstreamRewrite "truncated signed Exp-Golomb value")
  let value ← orFail (crate.nextSigned decoder)
    (.x264BitstreamRewrite "invalid signed Exp-Golomb value")
  -- arithmetic on `u64`
  let codeNum ← if value.natAbs * 2 < 2 ^ 64 then
      .ok (if value ≤ 0 then value.natAbs * 2 else value.natAbs * 2 - 1)
    else .error .panic
  let len ← expGolombBitLen codeNum
  -- `try_into` to `i32`
  if -2 ^ 31 ≤ value ∧ value < 2 ^ 31 then .ok (value, { r with pos := r.pos + len })
  else rewriteError "signed Exp-Golomb value exceeds i32"

/-- `while reader.pos % 8 != 0`, each round of which reads a bit that must be one: a byte
boundary is at most seven rounds away. -/
def alignOne : Nat → Read Unit
  | 0 => pure ()
  | fuel + 1 => do
    let r ← get
    if r.pos % 8 = 0 then pure ()
    else
      let b ← bit
      failIf (b ≠ 1) "invalid CABAC alignment"
      alignOne fuel

end BitReader

end Catplay.Model.Fb

/-!
## Writing bits (c2a/catplay_fb/src/carplay_helpers/bit_writer.rs)

The writer of an RBSP. `expect`, an index out of bounds and an overflow panic.
-/

namespace Catplay.Model.Fb

open Catplay.Library.Checked

structure BitWriter where
  data : List UInt8
  len : Nat
  deriving DecidableEq, Repr

abbrev Write := StateT BitWriter (Exec H264FrameBufferError) Unit

/-- `expect`. -/
def expect {α : Type} (x : Option α) : RewriteResult α :=
  match x with
  | some a => .ok a
  | none => .error .panic

namespace BitWriter

/-- `BitWriter::default()`. -/
def new : BitWriter := ⟨[], 0⟩

def bit (b : UInt8) : Write := fun w => do
  let data := if w.len % 8 = 0 then w.data ++ [0] else w.data
  if b ≠ 0 then
    if data.length = 0 then .error .panic
    else
      let last := data.length - 1
      let byte ← index data last
      .ok ((), ⟨data.set last (byte ||| 1 <<< UInt8.ofNat (7 - w.len % 8)), w.len + 1⟩)
  else .ok ((), ⟨data, w.len + 1⟩)

/-- `for shift in (0..count).rev()`. -/
def bits (value : Nat) : Nat → Write
  | 0 => pure ()
  | shift + 1 => do
    bit (UInt8.ofNat ((value >>> shift) &&& 1))
    bits value shift

/-- `for pos in 0..encoded_bits`, the rounds of it that are left. -/
def copyBits (encoded : List UInt8) : Nat → Nat → Write
  | 0, _ => pure ()
  | rounds + 1, pos => do
    let byte ← (index encoded (pos / 8) : RewriteResult UInt8)
    bit ((byte >>> UInt8.ofNat (7 - pos % 8)) &&& 1)
    copyBits encoded rounds (pos + 1)

def ue (crate : ExpGolomb) (value : Nat) : Write := do
  let encoder ← expect (crate.newEncoder (List.replicate 9 0) 0)
  let encoder ← expect (crate.putUnsigned encoder value)
  let (encoded, byte, b) := crate.close encoder
  copyBits encoded (byte * 8 + b) 0

/-- `se`: the arithmetic is on `u32`. -/
def se (crate : ExpGolomb) (value : Int) : Write := do
  let codeNum ← (if value.natAbs * 2 < 2 ^ 32 then
      .ok (if value ≤ 0 then value.natAbs * 2 else value.natAbs * 2 - 1)
    else .error .panic : RewriteResult Nat)
  ue crate codeNum

/-- `while self.len % 8 != 0`, at most seven rounds. -/
def alignWith (b : UInt8) : Nat → Write
  | 0 => pure ()
  | fuel + 1 => do
    let w ← get
    if w.len % 8 = 0 then pure ()
    else
      bit b
      alignWith b fuel

def alignOne : Write := alignWith 1 7

def alignZero : Write := alignWith 0 7

def rbspTrailingBits : Write := do
  bit 1
  alignZero

end BitWriter

end Catplay.Model.Fb
