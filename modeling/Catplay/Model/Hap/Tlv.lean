import Catplay.Library.Maps
import Catplay.Library.Checked

/-!
# Type-length-value records (backend/tlv.rs)

`encode` writes a value in fragments of at most 255 bytes, each after its type and its
length; `decode` walks over the bytes and appends what it reads to the entry of its type.
Reads are checked (`Checked.index`, `Checked.slice`), as in the source. An index never wraps:
it is at most 257 beyond the length of a slice.
-/

set_option autoImplicit false

namespace Catplay.Model.Hap.Tlv

open Catplay.Library Catplay.Library.Checked

abbrev TlvContainer := ByteMap (List UInt8)

/-- `while !remaining.is_empty()`: every round takes at least one byte, so `fuel` is the
number of bytes. -/
def encodeValue (t : UInt8) : Nat → List UInt8 → List UInt8 → List UInt8
  | 0, _, out => out
  | fuel + 1, remaining, out =>
    if remaining.isEmpty then out
    else
      let chunkLen := min remaining.length 255
      encodeValue t fuel (remaining.drop chunkLen)
        (out ++ [t, UInt8.ofNat chunkLen] ++ remaining.take chunkLen)

def encode (tlvs : List (UInt8 × List UInt8)) : List UInt8 :=
  tlvs.foldl (fun out tlv => encodeValue tlv.1 tlv.2.length tlv.2 out) []

/-- `hm.entry(t).or_default().extend_from_slice(chunk)`. -/
def extend (hm : TlvContainer) (t : UInt8) (chunk : List UInt8) : TlvContainer :=
  hm.insert t ((hm t).getD [] ++ chunk)

/-- `while i + 2 <= tlv.len()`. -/
def decodeLoop (tlv : List UInt8) (hm : TlvContainer) (i : Nat) : Exec Empty TlvContainer :=
  if i + 2 ≤ tlv.length then do
    let t ← index tlv i
    let l ← index tlv (i + 1)
    -- malformed: the claimed length is too big
    if i + 2 + l.toNat > tlv.length then .ok hm
    else
      let chunk ← slice tlv (i + 2) (i + 2 + l.toNat)
      decodeLoop tlv (extend hm t chunk) (i + 2 + l.toNat)
  else .ok hm
termination_by tlv.length - i
decreasing_by omega

def decode (tlv : List UInt8) : Exec Empty TlvContainer := decodeLoop tlv ByteMap.empty 0

/-! ## The records the protocol sends on failure -/

inductive Error
  | unknown
  | authentication
  | backoff
  | maxPeers
  | maxTries
  | unavailable
  | busy
  deriving DecidableEq, Repr

/-- `error as u8`. -/
def Error.code : Error → UInt8
  | .unknown => 0x01
  | .authentication => 0x02
  | .backoff => 0x03
  | .maxPeers => 0x04
  | .maxTries => 0x05
  | .unavailable => 0x06
  | .busy => 0x07

def Error.decode (code : UInt8) : Option Error :=
  if code = Error.unknown.code then some .unknown
  else if code = Error.authentication.code then some .authentication
  else if code = Error.backoff.code then some .backoff
  else if code = Error.maxPeers.code then some .maxPeers
  else if code = Error.maxTries.code then some .maxTries
  else if code = Error.unavailable.code then some .unavailable
  else if code = Error.busy.code then some .busy
  else none

/-- `Type::State as u8` and `Type::Error as u8`. -/
def stateType : UInt8 := 0x06
def errorType : UInt8 := 0x07

structure ErrorContainer where
  step : UInt8
  error : Error
  deriving DecidableEq, Repr

namespace ErrorContainer

def encode (c : ErrorContainer) : List UInt8 :=
  Tlv.encode [(stateType, [c.step]), (errorType, [c.error.code])]

def decode (body : List UInt8) : Exec Empty (Option ErrorContainer) := do
  let tlv ← Tlv.decode body
  let step := ((tlv stateType).bind List.head?).getD 0
  let error := ((tlv errorType).bind List.head?).bind Error.decode
  .ok (error.map fun error => ⟨step, error⟩)

end ErrorContainer

end Catplay.Model.Hap.Tlv
