import Mathlib.Data.List.Basic

/-!
# Frames of the iAP1 protocol

`core/catplay_lingo/src/wire/frame.rs`. The frame starts at its `0x55`; the checksum behind
it belongs to the caller.
-/

set_option autoImplicit false

namespace Catplay.Model.Lingo

/-- The bytes after the packet length. -/
structure Frame where
  body : List UInt8
  deriving DecidableEq, Repr

inductive LinkError
  | invalidSync
  | emptyBody
  | truncatedCommand
  | invalidLength
  | bodyTooLong (length : Nat)
  deriving DecidableEq, Repr

namespace FrameCodec

/-- The shortest body of a lingo: lingo 4 has two-byte commands. -/
def minBodyLen (lingo : Option UInt8) : Nat := if lingo = some 4 then 3 else 2

/-- The part of `decode` behind the length field. -/
def decodeBody (src : List UInt8) (headerLen bodyLen : Nat) (extended : Bool) :
    Except LinkError (Option (Frame × Nat)) :=
  let totalLen := headerLen + bodyLen
  if bodyLen = 0 then .error .invalidLength
  else if src.length < totalLen then .ok none
  else if extended ∧ bodyLen ≤ 255 then .error .invalidLength
  else if bodyLen < minBodyLen src[headerLen]? then .error .truncatedCommand
  else .ok (some (⟨(src.drop headerLen).take bodyLen⟩, totalLen))

/-- One frame at the start of `src`, with its length. `none` asks for more bytes. -/
def decode (src : List UInt8) : Except LinkError (Option (Frame × Nat)) :=
  match src with
  | [] => .ok none
  | first :: tail =>
    if first ≠ 0x55 then .error .invalidSync
    else
      match tail with
      | [] => .ok none
      | lengthByte :: tail =>
        if lengthByte = 0 then
          match tail with
          | hi :: lo :: _ => decodeBody src 4 (hi.toNat * 256 + lo.toNat) true
          | _ => .ok none
        else decodeBody src 2 lengthByte.toNat false

/-- The bytes a body is written as, or why it is not. -/
def encode (body : List UInt8) : Except LinkError (List UInt8) :=
  if body.isEmpty then .error .emptyBody
  else if body.length < minBodyLen body.head? then .error .truncatedCommand
  else if body.length > 65535 then .error (.bodyTooLong body.length)
  else if body.length ≤ 255 then .ok ([0x55, .ofNat body.length] ++ body)
  else .ok ([0x55, 0, .ofNat (body.length / 256), .ofNat (body.length % 256)] ++ body)

end FrameCodec

end Catplay.Model.Lingo
