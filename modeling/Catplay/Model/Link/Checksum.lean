import Catplay.Library.Checked
import Catplay.Model.Link.PacketCoder
import Mathlib.Data.UInt

/-!
# The fast checksum with overflow checks

`sum_block_u32` and `iap2_gen_checksum_fast` (core/catplay_iap2_link/src/crc.rs) once more, as a
build with overflow checks runs them: a sum of `u32` that does not fit panics, and so does an index
out of bounds. The sum of a byte wraps in every build.
-/

set_option autoImplicit false

namespace Catplay.Model.Link.OverflowChecks

open Catplay.Library Catplay.Library.Checked

/-- `+` on `u32`. -/
def add (x y : UInt32) : Exec Empty UInt32 :=
  if x.toNat + y.toNat < 2 ^ 32 then .ok (x + y) else .error .panic

/-- What a chunk adds to the accumulator `i`. -/
def addend (chunk : Bytes) (i : Nat) : Exec Empty UInt32 := do
  let sum ← add (← index chunk i).toUInt32 (← index chunk (i + 4)).toUInt32
  let sum ← add sum (← index chunk (i + 8)).toUInt32
  add sum (← index chunk (i + 12)).toUInt32

def addChunk (acc : UInt32 × UInt32 × UInt32 × UInt32) (chunk : Bytes) :
    Exec Empty (UInt32 × UInt32 × UInt32 × UInt32) := do
  let acc0 ← add acc.1 (← addend chunk 0)
  let acc1 ← add acc.2.1 (← addend chunk 1)
  let acc2 ← add acc.2.2.1 (← addend chunk 2)
  let acc3 ← add acc.2.2.2 (← addend chunk 3)
  return (acc0, acc1, acc2, acc3)

def sumBlockU32 (data : Bytes) : Exec Empty UInt32 := do
  let chunks := chunksExact 16 data
  let acc ← chunks.1.foldlM addChunk (0, 0, 0, 0)
  let sum ← add acc.1 acc.2.1
  let sum ← add sum acc.2.2.1
  let sum ← add sum acc.2.2.2
  chunks.2.foldlM (fun sum b => add sum b.toUInt32) sum

def iap2GenChecksumFast (data : Bytes) : Exec Empty UInt8 := do
  let sum ← (chunks 1024 data).foldlM
    (fun (sum : UInt8) block => do return sum + (← sumBlockU32 block).toUInt8) 0
  return ~~~sum + 1

end Catplay.Model.Link.OverflowChecks
