import Mathlib.Data.List.Basic

/-!
# HID framing

`usb/catplay_iap2_usb_host/g_iphone/iap2_hid/hid_framing.c`: which reports a descriptor
declares, how a message is put into reports and how it is taken out of them again, with the
loop of `iap2_hid_tx_work` that sends a message. The parser's answers `-EPROTO` and
`-ENOMEM` are both `none`; allocations succeed.
-/

set_option autoImplicit false

namespace Catplay.Model.Iap2Usb

abbrev Bytes := List UInt8

/-- `u16 sizes[256]`: the length of the report with a given id, zero where there is none. -/
abbrev Sizes := UInt8 → UInt16

/-! ## The descriptor -/

structure Globals where
  page : Nat := 0
  id : Nat := 0
  size : Nat := 0
  count : Nat := 0
  deriving DecidableEq, Repr

inductive Direction
  | input
  | output
  deriving DecidableEq, Repr

/-- The bits of a report, and whether a vendor page is among its fields. -/
structure Field where
  bits : Nat := 0
  vendor : Bool := false
  deriving DecidableEq, Repr

structure HidReports where
  input : Sizes
  output : Sizes

structure Parser where
  g : Globals := {}
  stack : List Globals := []
  fields : Direction → Nat → Field := fun _ _ => {}

def maxBits : Nat := 65534 * 8

/-- `(u32)desc[pos++] << (8 * i)`, summed up. -/
def itemValue (bytes : Bytes) : Nat := bytes.foldr (fun b value => b.toNat + 256 * value) 0

/-- The bits of a field are added to its report. -/
def Parser.addField (self : Parser) (d : Direction) : Option Parser :=
  let bits := self.g.size * self.g.count
  let field := self.fields d self.g.id
  if bits > maxBits ∨ field.bits > maxBits - bits then none
  else
    let field : Field :=
      { bits := field.bits + bits, vendor := field.vendor || self.g.page ≥ 0xff00 }
    some { self with
      fields := fun d' id => if d' = d ∧ id = self.g.id then field else self.fields d' id }

/-- One short item. -/
def Parser.item (self : Parser) (tag : UInt8) (value : Nat) : Option Parser :=
  if tag = 0x04 then some { self with g := { self.g with page := value } }
  else if tag = 0x74 then some { self with g := { self.g with size := value } }
  else if tag = 0x84 then
    if value = 0 ∨ value > 255 then none
    else some { self with g := { self.g with id := value } }
  else if tag = 0x94 then some { self with g := { self.g with count := value } }
  else if tag = 0xa4 then
    if self.stack.length = 32 then none else some { self with stack := self.g :: self.stack }
  else if tag = 0xb4 then
    match self.stack with
    | [] => none
    | g :: stack => some { self with g, stack }
  else if tag = 0x80 then self.addField .input
  else if tag = 0x90 then self.addField .output
  else some self

/-- The loop over the items; each is at least one byte long. -/
def parseItems : Nat → Parser → Bytes → Option Parser
  | 0, _, _ => none
  | _ + 1, parser, [] => some parser
  | fuel + 1, parser, itemPrefix :: desc =>
    if itemPrefix = 0xfe then
      match desc with
      | size :: _ :: rest =>
        if rest.length < size.toNat then none else parseItems fuel parser (rest.drop size.toNat)
      | _ => none
    else
      let n := if itemPrefix &&& 3 = 3 then 4 else (itemPrefix &&& 3).toNat
      if n > desc.length then none
      else do
        let parser ← parser.item (itemPrefix &&& 0xfc) (itemValue (desc.take n))
        parseItems fuel parser (desc.drop n)

/-- The ids of all reports. -/
def allIds : List Nat := List.range 256

/-- A report of a vendor page has an id and a whole number of at least two bytes. -/
def Field.wellFormed (field : Field) (id : Nat) : Bool :=
  !field.vendor || !(id = 0 || field.bits % 8 ≠ 0 || field.bits < 16 || field.bits > maxBits)

def Field.reportSize (field : Field) : UInt16 :=
  if field.vendor then UInt16.ofNat (1 + field.bits / 8) else 0

def hidReportsParse (desc : Bytes) : Option HidReports := do
  let parser ← parseItems (desc.length + 1) {} desc
  if parser.stack ≠ [] then none
  else if !(allIds.all fun id =>
      (parser.fields .input id).wellFormed id && (parser.fields .output id).wellFormed id) then
    none
  else if !(allIds.any fun id => (parser.fields .input id).vendor) then none
  else if !(allIds.any fun id => (parser.fields .output id).vendor) then none
  else
    return {
      input := fun id => (parser.fields .input id.toNat).reportSize
      output := fun id => (parser.fields .output id.toNat).reportSize }

/-! ## Reports -/

inductive HidError
  | inval
  | msgsize
  | proto
  deriving DecidableEq, Repr

/-- The ids that the loop of `hid_report_encode` goes through. -/
def reportIds : List UInt8 := (List.range' 1 255).map UInt8.ofNat

/-- One round of that loop: the smallest report that the rest fits in, and the largest one. -/
def chooseStep (sizes : Sizes) (remaining : Nat) (chosen : UInt8 × UInt8) (i : UInt8) :
    UInt8 × UInt8 :=
  if (sizes i).toNat < 3 then chosen
  else
    let largest := if sizes i ≥ sizes chosen.2 then i else chosen.2
    let best :=
      if (sizes i).toNat - 2 ≥ remaining ∧ (chosen.1 = 0 ∨ sizes i < sizes chosen.1) then i
      else chosen.1
    (best, largest)

def chooseReport (sizes : Sizes) (remaining : Nat) : UInt8 :=
  let chosen := reportIds.foldl (chooseStep sizes remaining) (0, 0)
  if chosen.1 = 0 then chosen.2 else chosen.1

/-- The report, which is as long as its descriptor says, and the next offset. -/
def hidReportEncode (sizes : Sizes) (data : Bytes) (offset capacity : Nat) :
    Except HidError (Bytes × Nat) :=
  if data.length = 0 ∨ offset ≥ data.length then .error .inval
  else
    let remaining := data.length - offset
    let best := chooseReport sizes remaining
    if best = 0 then .error .inval
    else if (sizes best).toNat > capacity then .error .msgsize
    else
      let n := min remaining ((sizes best).toNat - 2)
      let flags : UInt8 := (if offset = 0 then 0 else 1) ||| (if remaining > n then 2 else 0)
      let fragment := (data.drop offset).take n
      .ok (best :: flags :: fragment ++ List.replicate ((sizes best).toNat - 2 - n) 0, offset + n)

structure HidFragment where
  data : Bytes
  starts : Bool
  ends : Bool
  deriving DecidableEq, Repr

/-- The fragment of a report, next to the state that the receiver is left in. The sizes of the
descriptor are not looked at. -/
def hidReportDecode (continuing : Bool) (report : Bytes) : Except HidError HidFragment × Bool :=
  match report with
  | _ :: flags :: data =>
    if data = [] ∨ flags &&& ~~~3 ≠ 0 ∨ (flags &&& 1 ≠ 0 ∧ !continuing) then (.error .proto, false)
    else
      (.ok { data, starts := flags &&& 1 = 0, ends := flags &&& 2 = 0 }, !(flags &&& 2 = 0))
  | _ => (.error .proto, false)

/-! ## Sending a message -/

/-- `max_input_report_len`. -/
def maxReportLen (sizes : Sizes) : Nat := reportIds.foldl (fun len i => max len (sizes i).toNat) 0

/-- The loop of `iap2_hid_tx_work` where every report goes through: the reports from an offset
on. -/
def splitFrom (sizes : Sizes) (data : Bytes) : Nat → Nat → Option (List Bytes)
  | 0, _ => none
  | fuel + 1, offset =>
    if offset < data.length then
      match hidReportEncode sizes data offset (maxReportLen sizes) with
      | .error _ => none
      | .ok (report, offset) => (splitFrom sizes data fuel offset).map (report :: ·)
    else some []

/-- The reports of a message. Each takes at least one byte of it. -/
def splitMessage (sizes : Sizes) (data : Bytes) : Option (List Bytes) :=
  splitFrom sizes data (data.length + 1) 0

/-- The receiver, report by report, up to the first one that it refuses. -/
def decodeReports (continuing : Bool) : List Bytes → Option (List HidFragment × Bool)
  | [] => some ([], continuing)
  | report :: reports =>
    match hidReportDecode continuing report with
    | (.error _, _) => none
    | (.ok fragment, continuing) =>
      (decodeReports continuing reports).map fun (fragments, continuing) =>
        (fragment :: fragments, continuing)

end Catplay.Model.Iap2Usb
