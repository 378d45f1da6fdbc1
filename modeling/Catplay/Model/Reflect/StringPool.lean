import Mathlib.Data.Nat.Log
import Mathlib.Data.UInt

/-!
# Compile-time string pools

`core/catplay_reflect/src/pool/string/helpers.rs`. The declared strings are laid out once,
equal strings on one place, and packed into an array of records that end with a NUL. The
functions run during const evaluation: a failed assertion, an index out of bounds and a
loop without an end stop the compiler. They return `none` then.
-/

set_option autoImplicit false

namespace Catplay.Model.Reflect

abbrev Bytes := List UInt8

/-- `usize::MAX`: the mark of an empty slot. -/
def usizeMax : Nat := 2 ^ 64 - 1

structure StringLayout where
  ids : List UInt16
  offsets : List UInt16
  byteLen : Nat
  uniqueLen : Nat
  deriving DecidableEq, Repr

/-- At most half-full, a power of two; the product and the power are checked. -/
def stringHashSlots (count : Nat) : Option Nat :=
  if count * 2 ≤ usizeMax ∧ 2 ^ Nat.clog 2 (count * 2) ≤ usizeMax then
    some (2 ^ Nat.clog 2 (count * 2))
  else none

def bytesEqual (left right : Bytes) : Bool :=
  left.length == right.length && (left.zip right).all fun (l, r) => l == r

/-- FNV-1a. Every declaration reaches this pass, so it is here that a NUL is refused. -/
def stringHash (bytes : Bytes) : Option UInt64 :=
  bytes.foldlM (fun hash byte =>
    if byte = 0 then none else some ((hash ^^^ byte.toUInt64) * 0x100000001b3))
    0xcbf29ce484222325

/-! ## The table of the declarations -/

/-- Where the search for a string ends. -/
inductive Found
  | empty (slot : Nat)
  | declared (index : Nat)
  deriving DecidableEq, Repr

/-- The loop over the slots. After as many steps as there are slots it is back at its start. -/
def probe (input : List Bytes) (slots : List Nat) (bytes : Bytes) : Nat → Nat → Option Found
  | 0, _ => none
  | fuel + 1, slot => do
    let previous ← slots[slot]?
    if previous = usizeMax then return .empty slot
    else
      let string ← input[previous]?
      if bytesEqual bytes string then return .declared previous
      else probe input slots bytes fuel ((slot + 1) &&& (slots.length - 1))

/-- The slot of the hash, and the loop from there on. -/
def search (input : List Bytes) (slots : List Nat) (bytes : Bytes) : Option Found := do
  let hash ← stringHash bytes
  probe input slots bytes slots.length (hash.toNat &&& (slots.length - 1))

/-- One declaration enters the table, unless an equal string is there. -/
def stringLookupStep (input : List Bytes) (slots : List Nat) (index : Nat) : Option (List Nat) := do
  let bytes ← input[index]?
  match ← search input slots bytes with
  | .empty slot => return slots.set slot index
  | .declared _ => return slots

def stringLookupTable (input : List Bytes) (hashSlots : Nat) : Option (List Nat) :=
  (List.range input.length).foldlM (stringLookupStep input) (List.replicate hashSlots usizeMax)

/-- The index of the first declaration of a string; a string with a NUL is none. -/
def lookupDeclared (input : List Bytes) (slots : List Nat) (value : Bytes) :
    Option (Option Nat) :=
  if value.any (· = 0) then some none
  else do
    match ← search input slots value with
    | .empty _ => return none
    | .declared index => return some index

/-! ## Layout and packing -/

/-- One declaration: a string that is new gets the next id and the next free byte, one that is
not shares those of its first declaration. -/
def stringLayoutStep (input : List Bytes) (poolPrefix : Nat) :
    List Nat × StringLayout → Nat → Option (List Nat × StringLayout)
  | (slots, layout), i => do
    let bytes ← input[i]?
    guard (bytes.length ≤ 65535 - poolPrefix)
    match ← search input slots bytes with
    | .empty slot =>
      guard (1 + bytes.length ≤ 65536 - layout.byteLen)
      guard (layout.uniqueLen < 65535)
      return (slots.set slot i,
        { ids := layout.ids ++ [UInt16.ofNat (layout.uniqueLen + 1)]
          offsets := layout.offsets ++ [UInt16.ofNat layout.byteLen]
          byteLen := layout.byteLen + (1 + bytes.length)
          uniqueLen := layout.uniqueLen + 1 })
    | .declared previous =>
      let id ← layout.ids[previous]?
      let offset ← layout.offsets[previous]?
      return (slots,
        { layout with ids := layout.ids ++ [id], offsets := layout.offsets ++ [offset] })

def stringLayout (input : List Bytes) (hashSlots poolPrefix : Nat) : Option StringLayout := do
  guard (poolPrefix ≤ 1)
  guard (stringHashSlots input.length = some hashSlots)
  let (_, layout) ← (List.range input.length).foldlM (stringLayoutStep input poolPrefix)
    (List.replicate hashSlots usizeMax, ⟨[], [], poolPrefix, 0⟩)
  return layout

/-- A string is copied where its record is the next one; a duplicate has its record already. -/
def packStep (input : List Bytes) (layout : StringLayout) :
    Bytes × Nat → Nat → Option (Bytes × Nat)
  | (out, next), i => do
    let offset ← layout.offsets[i]?
    let pos := offset.toNat
    if pos = next then
      let src ← input[i]?
      guard (pos ≤ out.length ∧ src.length ≤ out.length - pos)
      let out := out.take pos ++ src ++ out.drop (pos + src.length)
      guard (pos + src.length < out.length)
      return (out.set (pos + src.length) 0, next + (1 + src.length))
    else return (out, next)

def packStrings (size : Nat) (input : List Bytes) (layout : StringLayout) (poolPrefix : Nat) :
    Option Bytes := do
  guard (poolPrefix ≤ 1)
  guard (size = layout.byteLen)
  let (out, next) ← (List.range input.length).foldlM (packStep input layout)
    (List.replicate size 0, poolPrefix)
  guard (next = size)
  return out

/-- One byte offset for each distinct string. -/
def stringOffsets (layout : StringLayout) (size : Nat) : Option (List UInt16) := do
  guard (size = layout.uniqueLen)
  (layout.ids.zip layout.offsets).foldlM (fun offsets (id, offset) => do
    guard (0 < id.toNat ∧ id.toNat - 1 < offsets.length)
    return offsets.set (id.toNat - 1) offset) (List.replicate size 0)

/-! ## Reading the pool -/

/-- The number of bytes before the first NUL. -/
def untilNul : Bytes → Option Nat
  | [] => none
  | byte :: rest => if byte = 0 then some 0 else (untilNul rest).map (· + 1)

def recordBytes (pool : Bytes) (offset : Nat) : Option Bytes := do
  let len ← untilNul (pool.drop offset)
  return (pool.drop offset).take len

def isStringOffset (pool : Bytes) (raw : UInt16) : Bool :=
  raw.toNat ≠ 0 && raw.toNat < pool.length && pool[raw.toNat - 1]? = some 0

/-- The NULs between the reserved one and the offset are counted. -/
def stringIndex (pool : Bytes) (offset : Nat) : Option Nat := do
  guard (offset ≠ 0 ∧ offset < pool.length ∧ pool[0]? = some 0 ∧ pool[offset - 1]? = some 0)
  return ((pool.take offset).drop 1).count 0

/-- The loop over the records. Each is at least one byte long, so there are no more rounds than
bytes. -/
def lookupLoop (direct : Bool) (pool value : Bytes) : Nat → Nat → Nat → Option (Option UInt16)
  | 0, _, _ => none
  | fuel + 1, pos, raw =>
    if pos < pool.length then do
      let bytes ← recordBytes pool pos
      if bytesEqual bytes value then
        let encoded := if direct then pos else raw
        guard (encoded ≤ 65535)
        return some (UInt16.ofNat encoded)
      else
        lookupLoop direct pool value fuel (pos + (1 + bytes.length))
          (if direct then raw else raw + 1)
    else some none

/-- Direct pools skip the reserved NUL and return an offset, dense ones return an ordinal. -/
def lookupString (direct : Bool) (pool value : Bytes) : Option (Option UInt16) :=
  lookupLoop direct pool value (pool.length + 1) (if direct then 1 else 0) 1

/-- The raw value of a declaration's handle (`static_strings!`): its id without a prefix, its
offset with one. -/
def StringLayout.handle (layout : StringLayout) (poolPrefix index : Nat) : Option UInt16 :=
  if poolPrefix = 0 then layout.ids[index]? else layout.offsets[index]?

end Catplay.Model.Reflect
