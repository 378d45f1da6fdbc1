import Catplay.Library.Checked
import Catplay.Library.Endian
import Catplay.Library.Text

/-!
# Binary property lists

The layout, the values and the reader of `core/catplay_plist`.
-/

set_option autoImplicit false

/-!
## The layout of a binary property list

`core/catplay_plist/src/bplist/wire/format.rs`: the constants, the integers and the trailer that
the reader and the writer share. A `usize` has 64 bits; text is a list of scalar values.
-/

namespace Catplay.Model.Plist

open Catplay.Library.BigEndian Catplay.Library.Checked

/-- `&str` and `String`. -/
abbrev Str := List Char

/-- `b"bplist00"`. -/
def header : List UInt8 := [0x62, 0x70, 0x6c, 0x69, 0x73, 0x74, 0x30, 0x30]

def trailerSize : Nat := 32

namespace Marker

def false : UInt8 := 0x08
def true : UInt8 := 0x09
def integer : UInt8 := 0x10
def real : UInt8 := 0x20
def date : UInt8 := 0x30
def data : UInt8 := 0x40
def ascii : UInt8 := 0x50
def utf16 : UInt8 := 0x60
def uid : UInt8 := 0x80
def array : UInt8 := 0xa0
def dictionary : UInt8 := 0xd0
def extendedLength : UInt8 := 0x0f

end Marker

/-! ### Machine integers -/

def usizeMax : Nat := 2 ^ 64 - 1
def u64Max : Nat := 2 ^ 64 - 1

def checkedAdd (a b : Nat) : Option Nat := if a + b ≤ usizeMax then some (a + b) else none
def checkedMul (a b : Nat) : Option Nat := if a * b ≤ usizeMax then some (a * b) else none

/-- `usize::try_from` of a `u64`. -/
def tryUsize (value : Nat) : Option Nat := if value ≤ usizeMax then some value else none

/-- `a + b` on `usize`, which panics where it overflows. -/
def addUsize {ε : Type} (a b : Nat) : Exec ε Nat :=
  if a + b ≤ usizeMax then .ok (a + b) else .error .panic

def mulUsize {ε : Type} (a b : Nat) : Exec ε Nat :=
  if a * b ≤ usizeMax then .ok (a * b) else .error .panic

def subUsize {ε : Type} (a b : Nat) : Exec ε Nat := if b ≤ a then .ok (a - b) else .error .panic

/-- `value.to_be_bytes()` of a `u64`. -/
def u64Bytes (value : Nat) : List UInt8 := toBytes 8 value

def validReadWidth (width : Nat) : Bool :=
  width = 1 || width = 2 || width = 3 || width = 4 || width = 8

/-- A fold in a `u64`, which loses what is shifted out. -/
def readInteger (bytes : List UInt8) : Nat :=
  bytes.foldl (fun value byte => (value <<< 8) % 2 ^ 64 ||| byte.toNat) 0

/-! ### The trailer -/

structure Trailer where
  offsetWidth : UInt8
  refWidth : UInt8
  objectCount : Nat
  root : Nat
  tableOffset : Nat
  deriving DecidableEq, Repr

namespace Trailer

/-- The caller ensures that `bytes` is the final 32 bytes of the input. -/
def fromBytes {ε : Type} (bytes : List UInt8) : Exec ε Trailer := do
  let offsetWidth ← index bytes 6
  let refWidth ← index bytes 7
  let objectCount ← slice bytes 8 16
  let root ← slice bytes 16 24
  let tableOffset ← slice bytes 24 32
  .ok
    { offsetWidth
      refWidth
      objectCount := readInteger objectCount
      root := readInteger root
      tableOffset := readInteger tableOffset }

def toBytes (self : Trailer) : List UInt8 :=
  [0, 0, 0, 0, 0, 0, self.offsetWidth, self.refWidth] ++ u64Bytes self.objectCount ++
    u64Bytes self.root ++ u64Bytes self.tableOffset

end Trailer

end Catplay.Model.Plist

/-!
## Property list values

`Value`, `Integer` and `Dictionary` of `core/catplay_plist/src/types`. What a date is, and how
it becomes text or seconds, is up to the `time` crate: dates have a type of their own and come
with their conversions. Floating-point numbers are their bit patterns.
-/

namespace Catplay.Model.Plist

/-- An `i64` or a `u64`, which is all an `Integer` is made from. -/
structure Integer where
  value : Int
  lower : -2 ^ 63 ≤ value
  upper : value < 2 ^ 64
  deriving DecidableEq, Repr

namespace Integer

end Integer

inductive Value (Date : Type)
  | array (values : List (Value Date))
  | dictionary (entries : List (Str × Value Date))
  | boolean (value : Bool)
  | data (bytes : List UInt8)
  | date (date : Date)
  | real (bits : UInt64)
  | integer (value : Integer)
  | string (text : Str)
  | uid (value : UInt64)

/-- The conversions of a date: seconds since the epoch of property lists, as the bits of an
`f64`, and XML text. -/
structure DateFormat (Date : Type) where
  asSeconds : Date → UInt64
  fromSeconds : UInt64 → Option Date
  xmlText : Date → Str
  fromXml : Str → Option Date

/-- An insertion-ordered map: a key that is there keeps its place. -/
def Dictionary.insert {V : Type} (entries : List (Str × V)) (key : Str) (value : V) :
    List (Str × V) :=
  if key ∈ entries.map Prod.fst then
    entries.map fun entry => if entry.1 = key then (key, value) else entry
  else entries ++ [(key, value)]

/-- The value for a key. -/
def Dictionary.get {V : Type} (entries : List (Str × V)) (key : Str) : Option V :=
  (entries.find? fun entry => entry.1 = key).map Prod.snd

namespace Value

variable {Date : Type}

end Value

end Catplay.Model.Plist

/-!
## The reader of binary property lists

`core/catplay_plist/src/bplist/wire/decode.rs`. A step that would index out of bounds or
overflow panics, and every function below says where it could. Floating-point numbers are
their bit patterns.
-/

namespace Catplay.Model.Plist

open Catplay.Library.BigEndian Catplay.Library.Checked Catplay.Library.Text

inductive Error
  | tooShort
  | invalidMagic
  | invalidTrailer
  | outOfBounds
  | invalidReference
  | invalidObject
  | invalidUtf8
  | integerOutOfRange
  deriving DecidableEq, Repr

/-- An `i64` or a `u64`. -/
inductive WireInteger
  | signed (value : Int)
  | unsigned (value : Nat)
  deriving DecidableEq, Repr

structure Refs where
  bytes : List UInt8
  width : Nat
  deriving DecidableEq, Repr

inductive Object
  | boolean (value : Bool)
  | integer (value : WireInteger)
  | real (bits : Nat)
  | date (bits : Nat)
  | uid (value : Nat)
  | data (bytes : List UInt8)
  | string (text : Str)
  | utf16 (bytes : List UInt8)
  | array (refs : Refs)
  | dictionary (keys values : Refs)
  deriving DecidableEq, Repr

namespace Refs

def len (self : Refs) : Nat := self.bytes.length / self.width

def get (self : Refs) (i : Nat) : Option Nat := do
  let start ← checkedMul i self.width
  let stop ← checkedAdd start self.width
  let bytes ← getSlice self.bytes start stop
  some (readInteger bytes)

end Refs

/-! ### Fixed-width numbers -/

/-- `i64::from_be_bytes` and `i128::from_be_bytes`. -/
def signedFromBytes (bytes : List UInt8) : Int :=
  let value := ofBytes bytes
  if value < 2 ^ (8 * bytes.length - 1) then value else value - 2 ^ (8 * bytes.length)

/-- The bits of an `f32` as those of the same number in an `f64`. -/
def f32AsF64 (bits : Nat) : Nat :=
  let sign := bits / 2 ^ 31
  let exponent := bits / 2 ^ 23 % 2 ^ 8
  let fraction := bits % 2 ^ 23
  if exponent = 0xff then
    -- infinities, and quiet copies of what is not a number
    sign * 2 ^ 63 + 0x7ff * 2 ^ 52 + (if fraction = 0 then 0 else fraction ||| 2 ^ 22) * 2 ^ 29
  else if exponent = 0 then
    if fraction = 0 then sign * 2 ^ 63
    else
      sign * 2 ^ 63 + (0x3ff - 149 + fraction.log2) * 2 ^ 52 +
        (fraction - 2 ^ fraction.log2) * 2 ^ (52 - fraction.log2)
  else sign * 2 ^ 63 + (exponent + 0x3ff - 0x7f) * 2 ^ 52 + fraction * 2 ^ 29

structure Document where
  input : List UInt8
  tableOffset : Nat
  offsetWidth : Nat
  refWidth : Nat
  objectCount : Nat
  root : Nat
  deriving DecidableEq, Repr

namespace Document

/-- Where the body of an object starts. -/
def offset (self : Document) (id : Nat) : Exec Error Nat := do
  let id ← orFail (tryUsize id) .invalidReference
  if id ≥ self.objectCount then fail .invalidReference
  else
    let skipped ← mulUsize id self.offsetWidth
    let start ← addUsize self.tableOffset skipped
    let stop ← addUsize start self.offsetWidth
    let entry ← slice self.input start stop
    let offset ← orFail (tryUsize (readInteger entry)) .outOfBounds
    if offset < header.length ∨ offset ≥ self.tableOffset then fail .outOfBounds
    else .ok offset

/-- `len` bytes that end before the offset table. -/
def body (self : Document) (start len : Nat) : Exec Error (List UInt8) := do
  let stop ← orFail (checkedAdd start len) .outOfBounds
  if stop > self.tableOffset then fail .outOfBounds
  else orFail (getSlice self.input start stop) .outOfBounds

def parse (input : List UInt8) : Exec Error Document := do
  if input.length < header.length + trailerSize then fail .tooShort
  else if input.take header.length ≠ header then fail .invalidMagic
  else
    let trailerOffset ← subUsize input.length trailerSize
    let tail ← slice input trailerOffset input.length
    let trailer ← Trailer.fromBytes tail
    let offsetWidth := trailer.offsetWidth.toNat
    let refWidth := trailer.refWidth.toNat
    if !validReadWidth offsetWidth || !validReadWidth refWidth then fail .invalidTrailer
    else
      let objectCount ← orFail (tryUsize trailer.objectCount) .invalidTrailer
      let root := trailer.root
      let tableOffset ← orFail (tryUsize trailer.tableOffset) .invalidTrailer
      if objectCount = 0 ∨ root ≥ objectCount ∨ tableOffset < header.length then
        fail .invalidTrailer
      else
        let tableLen ← orFail (checkedMul objectCount offsetWidth) .invalidTrailer
        let tableEnd ← orFail (checkedAdd tableOffset tableLen) .invalidTrailer
        if tableEnd > trailerOffset then fail .invalidTrailer
        else
          let doc : Document :=
            { input, tableOffset, offsetWidth, refWidth, objectCount, root }
          -- every offset is validated once, without copying the table
          let _ ← (List.range objectCount).mapM doc.offset
          .ok doc

/-- The length of an object, and where its bytes start. -/
def length (self : Document) (nibble : UInt8) (pos : Nat) : Exec Error (Nat × Nat) := do
  if nibble ≠ Marker.extendedLength then .ok (nibble.toNat, pos)
  else
    let head ← self.body pos 1
    let code ← orFail head.head? .outOfBounds
    let pos ← addUsize pos 1
    if code >>> 4 ≠ Marker.integer >>> 4 ∨ code &&& 0x0f > 3 then fail .invalidObject
    else
      let width := 1 <<< (code &&& 0x0f).toNat
      let bytes ← self.body pos width
      let len ← orFail (tryUsize (readInteger bytes)) .outOfBounds
      let pos ← addUsize pos width
      .ok (len, pos)

/-- The arm of `object` for integers. -/
def integerObject (self : Document) (nibble : UInt8) (pos : Nat) : Exec Error Object := do
  if nibble ≤ 2 then
    let bytes ← self.body pos (1 <<< nibble.toNat)
    .ok (.integer (.unsigned (readInteger bytes)))
  else if nibble = 3 then
    let bytes ← self.body pos 8
    .ok (.integer (.signed (signedFromBytes bytes)))
  else if nibble = 4 then
    let bytes ← self.body pos 16
    let value := signedFromBytes bytes
    if 0 ≤ value ∧ value ≤ u64Max then .ok (.integer (.unsigned value.toNat))
    else fail .integerOutOfRange
  else fail .invalidObject

def realObject (self : Document) (nibble : UInt8) (pos : Nat) : Exec Error Object := do
  if nibble = 2 then
    let bytes ← self.body pos 4
    .ok (.real (f32AsF64 (ofBytes bytes)))
  else if nibble = 3 then
    let bytes ← self.body pos 8
    .ok (.real (ofBytes bytes))
  else fail .invalidObject

def dateObject (self : Document) (nibble : UInt8) (pos : Nat) : Exec Error Object := do
  if nibble = 3 then
    let bytes ← self.body pos 8
    .ok (.date (ofBytes bytes))
  else fail .invalidObject

def dataObject (self : Document) (nibble : UInt8) (pos : Nat) : Exec Error Object := do
  let (len, pos) ← self.length nibble pos
  let bytes ← self.body pos len
  .ok (.data bytes)

def asciiObject (self : Document) (nibble : UInt8) (pos : Nat) : Exec Error Object := do
  let (len, pos) ← self.length nibble pos
  let bytes ← self.body pos len
  let text ← orFail (fromUtf8 bytes) .invalidUtf8
  .ok (.string text)

def utf16Object (self : Document) (nibble : UInt8) (pos : Nat) : Exec Error Object := do
  let (len, pos) ← self.length nibble pos
  let byteLen ← orFail (checkedMul len 2) .outOfBounds
  let bytes ← self.body pos byteLen
  .ok (.utf16 bytes)

def uidObject (self : Document) (nibble : UInt8) (pos : Nat) : Exec Error Object := do
  if nibble ≤ 7 then
    let width ← addUsize nibble.toNat 1
    let bytes ← self.body pos width
    .ok (.uid (readInteger bytes))
  else fail .invalidObject

def arrayObject (self : Document) (nibble : UInt8) (pos : Nat) : Exec Error Object := do
  let (len, pos) ← self.length nibble pos
  let byteLen ← orFail (checkedMul len self.refWidth) .outOfBounds
  let bytes ← self.body pos byteLen
  .ok (.array { bytes, width := self.refWidth })

def dictionaryObject (self : Document) (nibble : UInt8) (pos : Nat) : Exec Error Object := do
  let (len, pos) ← self.length nibble pos
  let byteLen ← orFail (checkedMul len self.refWidth) .outOfBounds
  let bothLen ← orFail (checkedMul byteLen 2) .outOfBounds
  let bytes ← self.body pos bothLen
  -- `split_at` panics behind the end
  let keys ← slice bytes 0 byteLen
  let values ← slice bytes byteLen bytes.length
  .ok (.dictionary { bytes := keys, width := self.refWidth }
    { bytes := values, width := self.refWidth })

def object (self : Document) (id : Nat) : Exec Error Object := do
  let start ← self.offset id
  let code ← index self.input start
  let tag := code &&& 0xf0
  let nibble := code &&& 0x0f
  let pos ← addUsize start 1
  if code = Marker.false then .ok (.boolean false)
  else if code = Marker.true then .ok (.boolean true)
  else if tag = Marker.integer then self.integerObject nibble pos
  else if tag = Marker.real then self.realObject nibble pos
  else if tag = Marker.date then self.dateObject nibble pos
  else if tag = Marker.data then self.dataObject nibble pos
  else if tag = Marker.ascii then self.asciiObject nibble pos
  else if tag = Marker.utf16 then self.utf16Object nibble pos
  else if tag = Marker.uid then self.uidObject nibble pos
  else if tag = Marker.array then self.arrayObject nibble pos
  else if tag = Marker.dictionary then self.dictionaryObject nibble pos
  else fail .invalidObject

/-- `chunks_exact(2)` read as big-endian units. -/
def units : List UInt8 → List Nat
  | high :: low :: bytes => (high.toNat * 256 + low.toNat) :: units bytes
  | _ => []

/-- Whether the key of a dictionary is `wanted`. -/
def keyMatches (wanted : Str) (key : Object) : Exec Error Bool :=
  match key with
  | .string text => .ok (text = wanted)
  | .utf16 bytes =>
    .ok (bytes.length / 2 = (encodeUtf16 wanted).length &&
      ((units bytes).zip (encodeUtf16 wanted)).all fun (unit, other) => unit = other)
  | _ => fail .invalidObject

/-- The loop of `dictionary_get` from `index` on. -/
def findKey (self : Document) (wanted : Str) (keys values : Refs) :
    List Nat → Exec Error (Option Nat)
  | [] => .ok none
  | i :: is => do
    let keyId ← orFail (keys.get i) .invalidReference
    let key ← self.object keyId
    let matched ← keyMatches wanted key
    if matched then
      let value ← orFail (values.get i) .invalidReference
      .ok (some value)
    else self.findKey wanted keys values is

/-- Looks up a dictionary value without decoding unrelated values. -/
def dictionaryGet (self : Document) (dictionary : Nat) (wanted : Str) :
    Exec Error (Option Nat) := do
  match ← self.object dictionary with
  | .dictionary keys values => self.findKey wanted keys values (List.range keys.len)
  | _ => fail .invalidObject

end Document

end Catplay.Model.Plist
