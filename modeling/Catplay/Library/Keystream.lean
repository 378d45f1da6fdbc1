import Mathlib.Data.List.Basic

/-!
# Keystreams

Keystreams as functions of the position, and those of a block function in counter mode.
-/

set_option autoImplicit false

/-!
## Stretches of a keystream

A keystream is a function of the position. `window ks start len` is the stretch of it at
`[start, start + len)`, and `xorBytes` puts a stretch on data. A stretch of a stretch is a stretch
(`take_window`, `drop_window`), and data cut in two is treated piece by piece
(`xorBytes_window_append`).
-/

namespace Catplay.Library.Keystream

/-- The keystream at `[start, start + len)`. -/
def window {α : Type} (ks : Nat → α) (start len : Nat) : List α :=
  (List.range len).map fun i => ks (start + i)

/-- Data under a key of at least its length. -/
def xorBytes (data key : List UInt8) : List UInt8 :=
  List.zipWith (· ^^^ ·) data key

section Window

variable {α : Type} (ks : Nat → α)

@[simp] theorem length_window (start len : Nat) : (window ks start len).length = len := by
  simp [window]

theorem window_add (start m n : Nat) :
    window ks start (m + n) = window ks start m ++ window ks (start + m) n := by
  unfold window
  rw [List.range_add, List.map_append, List.map_map]
  congr 1
  apply List.map_congr_left
  intro i _
  simp only [Function.comp, Nat.add_assoc]

theorem take_window (start : Nat) {m n : Nat} (h : m ≤ n) :
    (window ks start n).take m = window ks start m := by
  conv => lhs; rw [show n = m + (n - m) by omega, window_add]
  rw [List.take_append_of_le_length (by simp), List.take_of_length_le (by simp)]

theorem drop_window (start : Nat) {m n : Nat} (h : m ≤ n) :
    (window ks start n).drop m = window ks (start + m) (n - m) := by
  conv => lhs; rw [show n = m + (n - m) by omega, window_add]
  rw [List.drop_append_of_le_length (by simp), List.drop_of_length_le (by simp), List.nil_append]

/-- **A stretch of a stretch.** -/
theorem take_drop_window (start : Nat) {skip m n : Nat} (h : skip + m ≤ n) :
    ((window ks start n).drop skip).take m = window ks (start + skip) m := by
  rw [drop_window ks start (by omega), take_window ks (start + skip) (by omega)]

end Window

/-- Zeroes under a key are the key. -/
theorem xorBytes_replicate_zero (key : List UInt8) :
    xorBytes (List.replicate key.length 0) key = key := by
  induction key with
  | nil => rfl
  | cons k key ih =>
    show (0 ^^^ k) :: xorBytes (List.replicate key.length 0) key = k :: key
    rw [ih, UInt8.zero_xor]

theorem xorBytes_zero_window (ks : Nat → UInt8) (start len : Nat) :
    xorBytes (List.replicate len 0) (window ks start len) = window ks start len := by
  have h := xorBytes_replicate_zero (window ks start len)
  rwa [length_window] at h

theorem length_xorBytes_window (ks : Nat → UInt8) (start : Nat) (data : List UInt8) :
    (xorBytes data (window ks start data.length)).length = data.length := by
  simp [xorBytes]

/-- **Piece by piece.** Data cut in two under one stretch of the keystream. -/
theorem xorBytes_window_append (ks : Nat → UInt8) (start : Nat) (front back : List UInt8) :
    xorBytes (front ++ back) (window ks start (front ++ back).length) =
      xorBytes front (window ks start front.length) ++
        xorBytes back (window ks (start + front.length) back.length) := by
  unfold xorBytes
  rw [List.length_append, window_add]
  exact List.zipWith_append (by simp)

/-- Data under one stretch, cut at `n`. -/
theorem xorBytes_window_split (ks : Nat → UInt8) (start : Nat) {data : List UInt8} {n : Nat}
    (h : n ≤ data.length) :
    xorBytes data (window ks start data.length) =
      xorBytes (data.take n) (window ks start n) ++
        xorBytes (data.drop n) (window ks (start + n) (data.drop n).length) := by
  have hn : (data.take n).length = n := List.length_take_of_le h
  have happend := xorBytes_window_append ks start (data.take n) (data.drop n)
  rwa [List.take_append_drop, hn] at happend

end Catplay.Library.Keystream

/-!
## Counter mode

A block function gives a block of `size` bytes for each counter value; the keystream of a first
counter is the blocks of that counter and of those after it, one behind the other. The counter has
`w` bits and wraps. Where the counter starts `n` blocks later, so does the keystream
(`counterStream_add`).
-/

namespace Catplay.Library.CounterMode

open Catplay.Library.Keystream

variable {w : Nat} {α : Type} (block : BitVec w → Nat → α) (size : Nat)

/-- Byte `i` of the keystream from `counter`. -/
def counterStream (counter : BitVec w) (i : Nat) : α :=
  block (counter + BitVec.ofNat w (i / size)) (i % size)

variable {size}

/-- **A later counter is a later position.** -/
theorem counterStream_add (hsize : 0 < size) (counter : BitVec w) (n i : Nat) :
    counterStream block size (counter + BitVec.ofNat w n) i =
      counterStream block size counter (size * n + i) := by
  unfold counterStream
  rw [BitVec.add_assoc, ← BitVec.ofNat_add, Nat.mul_add_div hsize, Nat.mul_add_mod]

/-- The stretches of the two. -/
theorem window_counterStream_add (hsize : 0 < size) (counter : BitVec w) (n start len : Nat) :
    window (counterStream block size (counter + BitVec.ofNat w n)) start len =
      window (counterStream block size counter) (size * n + start) len := by
  unfold window
  apply List.map_congr_left
  intro i _
  rw [counterStream_add block hsize, Nat.add_assoc]

end Catplay.Library.CounterMode
