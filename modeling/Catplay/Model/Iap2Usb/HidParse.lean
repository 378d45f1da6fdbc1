import Catplay.Library.Checked
import Catplay.Model.Iap2Usb.HidFraming
import Mathlib.Data.UInt

/-!
# The descriptor parser step by step

`hid_reports_parse` of usb/catplay_iap2_usb_host/g_iphone/iap2_hid/hid_framing.c once more, with its
position in the descriptor, its numbers of 32 and 64 bits and the arrays it writes to. A read or a
write out of bounds and a number that does not fit are a `panic`; `goto out` is an error.
-/

set_option autoImplicit false

namespace Catplay.Model.Iap2Usb.HidParse

open Catplay.Library.Checked

/-- `goto out`. -/
def out {α : Type} : Exec Unit α := fail ()

/-- An unsigned number of the given width. -/
def fits (width n : Nat) : Exec Unit Nat := if n < 2 ^ width then .ok n else .error .panic

/-- A difference of unsigned numbers. -/
def minus (m n : Nat) : Exec Unit Nat := if n ≤ m then .ok (m - n) else .error .panic

/-- A position in the descriptor, or its end. -/
def advance (desc : Bytes) (pos count : Nat) : Exec Unit Nat :=
  if pos + count ≤ desc.length then .ok (pos + count) else .error .panic

/-- The loop `for (i = 0; i < n; i++) value |= (u32)desc[pos++] << (8 * i)`. -/
def readValue (desc : Bytes) : Nat → Nat → Nat → Nat → Exec Unit Nat
  | 0, _, _, value => .ok value
  | n + 1, i, pos, value => do
    let byte ← index desc pos
    let part ← fits 32 (byte.toNat <<< (8 * i))
    readValue desc n (i + 1) (pos + 1) (value ||| part)

/-- The tags `0x80` and `0x90`. `fields` has 256 entries for each direction. -/
def addField (parser : Parser) (d : Direction) : Exec Unit Parser := do
  let bits ← fits 64 (parser.g.size * parser.g.count)
  if bits > maxBits then out
  else if parser.g.id ≥ 256 then .error .panic
  else
    let field := parser.fields d parser.g.id
    let limit ← minus maxBits bits
    if field.bits > limit then out
    else
      let sum ← fits 64 (field.bits + bits)
      let field : Field := { bits := sum, vendor := field.vendor || parser.g.page ≥ 0xff00 }
      return { parser with
        fields := fun d' id => if d' = d ∧ id = parser.g.id then field else parser.fields d' id }

/-- One short item. `stack` has 32 entries. -/
def item (parser : Parser) (tag : UInt8) (value : Nat) : Exec Unit Parser :=
  if tag = 0x04 then .ok { parser with g := { parser.g with page := value } }
  else if tag = 0x74 then .ok { parser with g := { parser.g with size := value } }
  else if tag = 0x84 then
    if value = 0 ∨ value > 255 then out
    else .ok { parser with g := { parser.g with id := value } }
  else if tag = 0x94 then .ok { parser with g := { parser.g with count := value } }
  else if tag = 0xa4 then
    if parser.stack.length = 32 then out
    else if parser.stack.length < 32 then .ok { parser with stack := parser.g :: parser.stack }
    else .error .panic
  else if tag = 0xb4 then
    match parser.stack with
    | [] => out
    | g :: stack => .ok { parser with g, stack }
  else if tag = 0x80 then addField parser .input
  else if tag = 0x90 then addField parser .output
  else .ok parser

/-- The loop over the descriptor. -/
def parseLoop (desc : Bytes) (parser : Parser) (pos : Nat) : Exec Unit Parser :=
  if h : pos < desc.length then do
    let itemPrefix ← index desc pos
    if itemPrefix = 0xfe then
      let rest ← minus desc.length (pos + 1)
      if rest < 2 then out
      else
        let size ← index desc (pos + 1)
        let room ← minus rest 2
        if room < size.toNat then out
        else
          let _ ← advance desc pos (1 + (2 + size.toNat))
          parseLoop desc parser (pos + (1 + (2 + size.toNat)))
    else
      let n := if itemPrefix &&& 3 = 3 then 4 else (itemPrefix &&& 3).toNat
      let rest ← minus desc.length (pos + 1)
      if n > rest then out
      else
        let value ← readValue desc n 0 (pos + 1) 0
        let parser ← item parser (itemPrefix &&& 0xfc) value
        let _ ← advance desc pos (1 + n)
        parseLoop desc parser (pos + (1 + n))
  else .ok parser
termination_by desc.length - pos

def zeroReports : HidReports := { input := fun _ => 0, output := fun _ => 0 }

def setSize (sizes : Sizes) (id : Nat) (size : UInt16) : Sizes :=
  fun i => if i.toNat = id then size else sizes i

/-- One round of the loops over the directions and the ids; `found` is kept for either direction. -/
def storeField (parser : Parser) (state : HidReports × Bool × Bool) (entry : Direction × Nat) :
    Exec Unit (HidReports × Bool × Bool) := do
  let (d, id) := entry
  let field := parser.fields d id
  if !field.vendor then .ok state
  else if id = 0 ∨ field.bits % 8 ≠ 0 ∨ field.bits < 16 ∨ field.bits > maxBits then out
  else
    let size ← fits 16 (1 + field.bits / 8)
    match d with
    | .input =>
      return ({ state.1 with input := setSize state.1.input id (.ofNat size) }, true, state.2.2)
    | .output =>
      return ({ state.1 with output := setSize state.1.output id (.ofNat size) }, state.2.1, true)

/-- The directions and ids in the order of the loops. -/
def allEntries : List (Direction × Nat) :=
  allIds.map (Prod.mk .input) ++ allIds.map (Prod.mk .output)

def parse (desc : Bytes) : Exec Unit HidReports := do
  let parser ← parseLoop desc {} 0
  if parser.stack ≠ [] then out
  else
    let (reports, found) ← allEntries.foldlM (storeField parser) (zeroReports, false, false)
    if found.1 && found.2 then .ok reports else out

/-- What is returned and left in `reports`: `-ENOMEM` when the fields cannot be allocated, and
`-EPROTO` for a descriptor that is refused. -/
def hidReportsParse (allocates : Bool) (reports : HidReports) (desc : Bytes) :
    Exec Empty (Int × HidReports) :=
  if !allocates then .ok (-12, reports)
  else
    match parse desc with
    | .ok parsed => .ok (0, parsed)
    | .error (.error ()) => .ok (-71, zeroReports)
    | .error .panic => .error .panic

end Catplay.Model.Iap2Usb.HidParse
