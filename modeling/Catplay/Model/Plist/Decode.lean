import Catplay.Model.Plist.Document

/-!
# Decoding a value from a binary property list

`from_slice::<Value>` of `core/catplay_plist/src/bplist/serde/decode.rs` with the visitor of
`types/value.rs`. A decoder at depth `d` is run with `MAX_DEPTH - d` levels left; making a child
where none is left is the error `DepthLimit`.
-/

set_option autoImplicit false

namespace Catplay.Model.Plist

open Catplay.Library.Checked Catplay.Library.Text

def maxDepth : Nat := 128

/-- `message` stands for the errors of Serde's own making. -/
inductive DecodeError
  | format (e : Error)
  | depthLimit
  | typeMismatch
  | trailingElements
  | invalidDate
  | invalidUtf16
  | message
  deriving DecidableEq, Repr

variable {Date : Type}

namespace Decode

def object (doc : Document) (id : Nat) : Exec DecodeError Object :=
  mapError .format (doc.object id)

def utf16String (bytes : List UInt8) : Exec DecodeError Str :=
  orFail (decodeUtf16 (Document.units bytes)) .invalidUtf16

/-- A date in a `Value` goes through its XML text. -/
def date (dates : DateFormat Date) (bits : Nat) : Exec DecodeError Date := do
  let date ← orFail (dates.fromSeconds (UInt64.ofNat bits)) .invalidDate
  orFail (dates.fromXml (dates.xmlText date)) .message

def integer (value : WireInteger) : Exec DecodeError Integer :=
  let value : Int :=
    match value with
    | .signed value => value
    | .unsigned value => value
  if h : -2 ^ 63 ≤ value ∧ value < 2 ^ 64 then .ok ⟨value, h.1, h.2⟩ else .error .panic

/-- The visitor of `String`, which also takes bytes that are UTF-8. -/
def key (dates : DateFormat Date) (doc : Document) (id : Nat) : Exec DecodeError Str := do
  match ← object doc id with
  | .string text => .ok text
  | .utf16 bytes => utf16String bytes
  | .data bytes => orFail (fromUtf8 bytes) .message
  | .date bits =>
    let _ ← orFail (dates.fromSeconds (UInt64.ofNat bits)) .invalidDate
    fail .message
  | _ => fail .message

/-- `ArrayAccess`, with what decodes a child. -/
def elements {V : Type} (child : Nat → Exec DecodeError V) (refs : Refs) :
    Exec DecodeError (List V) :=
  (List.range refs.len).mapM fun i => do
    let id ← orFail (refs.get i) .trailingElements
    child id

/-- `DictAccess`, with what decodes a key and what a value. -/
def entries {V : Type} (childKey : Nat → Exec DecodeError Str) (child : Nat → Exec DecodeError V)
    (keys values : Refs) : Exec DecodeError (List (Str × V)) :=
  (List.range keys.len).foldlM (fun found i => do
    let keyId ← orFail (keys.get i) .trailingElements
    let valueId ← orFail (values.get i) .typeMismatch
    let key ← childKey keyId
    let value ← child valueId
    .ok (Dictionary.insert found key value)) []

def value (dates : DateFormat Date) (doc : Document) :
    Nat → Nat → Exec DecodeError (Value Date)
  | 0, _ => fail .depthLimit
  | levels + 1, id => do
    match ← object doc id with
    | .boolean v => .ok (.boolean v)
    | .integer v =>
      let v ← integer v
      .ok (.integer v)
    | .real bits => .ok (.real (UInt64.ofNat bits))
    | .string text => .ok (.string text)
    | .utf16 bytes =>
      let text ← utf16String bytes
      .ok (.string text)
    | .data bytes => .ok (.data bytes)
    | .uid v => .ok (.uid (UInt64.ofNat v))
    | .date bits =>
      let d ← date dates bits
      .ok (.date d)
    | .array refs =>
      let values ← elements (value dates doc levels) refs
      .ok (.array values)
    | .dictionary keys values =>
      let childKey := fun id => if levels = 0 then fail .depthLimit else key dates doc id
      let found ← entries childKey (value dates doc levels) keys values
      .ok (.dictionary found)

end Decode

/-- `from_slice::<Value>`. -/
def fromSlice (dates : DateFormat Date) (data : List UInt8) : Exec DecodeError (Value Date) := do
  let doc ← mapError .format (Document.parse data)
  Decode.value dates doc maxDepth doc.root

end Catplay.Model.Plist
