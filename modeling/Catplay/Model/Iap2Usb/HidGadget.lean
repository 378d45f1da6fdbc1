import Catplay.Library.Checked
import Catplay.Model.Iap2Usb.HidReceive

/-!
# The HID function of the gadget

`usb/catplay_iap2_usb_host/g_iphone/gadget/iphone_hid.c`: what is allocated at bind time, the control
requests of the host and the reports that are submitted. A buffer is its bytes, and a copy that goes
out of one is a `panic`. What `kmalloc` leaves in a buffer is not read before it is written, and is
zero here. `usb_ep_queue` and the allocations are told how they end.
-/

set_option autoImplicit false

namespace Catplay.Model.Iap2Usb.Gadget

open Catplay.Library.Checked

structure CtrlRequest where
  bRequestType : UInt8
  bRequest : UInt8
  wValue : UInt16
  wIndex : UInt16
  wLength : UInt16
  deriving DecidableEq, Repr

structure UsbRequest where
  buf : Bytes
  length : Nat := 0
  zero : Bool := false
  deriving DecidableEq, Repr

/-- A report is as long as it says at least. -/
structure Report where
  data : Bytes
  len : Nat
  reportId : UInt8
  holds : len ≤ data.length

/-- `active` says whether a report is; `last` is empty where there is none. -/
structure IphoneHid where
  reports : HidReports
  reportDesc : Bytes
  last : UInt8 → Bytes
  inReq : UsbRequest
  ctrlReq : UsbRequest
  active : Bool := false
  enabled : Bool := false
  stopped : Bool := false
  ctrlPending : Bool := false
  outputId : UInt8 := 0
  idleRate : UInt8 := 0

/-- What a request is queued with: its length, and the size of its buffer. -/
structure Queued where
  length : Nat
  room : Nat
  deriving DecidableEq, Repr

/-- `hid_2_2_bin`. -/
def hidDescriptor : Bytes := [0x09, 0x21, 0x11, 0x01, 0x00, 0x01, 0x22, 0xd0, 0x00]

/-- `report_2_2_bin_1`, the descriptor that `f_iphone.c` binds. -/
def reportDescriptor : Bytes :=
  [0x06, 0x00, 0xff, 0x09, 0x01, 0xa1, 0x01, 0x75, 0x08, 0x26, 0x80, 0x00, 0x15, 0x00,
    0x09, 0x01, 0x85, 0x01, 0x95, 0x05, 0x82, 0x02, 0x01,
    0x09, 0x01, 0x85, 0x02, 0x95, 0x09, 0x82, 0x02, 0x01,
    0x09, 0x01, 0x85, 0x03, 0x95, 0x0d, 0x82, 0x02, 0x01,
    0x09, 0x01, 0x85, 0x04, 0x95, 0x11, 0x82, 0x02, 0x01,
    0x09, 0x01, 0x85, 0x05, 0x95, 0x19, 0x82, 0x02, 0x01,
    0x09, 0x01, 0x85, 0x06, 0x95, 0x31, 0x82, 0x02, 0x01,
    0x09, 0x01, 0x85, 0x07, 0x95, 0x5f, 0x82, 0x02, 0x01,
    0x09, 0x01, 0x85, 0x08, 0x95, 0xc1, 0x82, 0x02, 0x01,
    0x09, 0x01, 0x85, 0x09, 0x96, 0x01, 0x01, 0x82, 0x02, 0x01,
    0x09, 0x01, 0x85, 0x0a, 0x96, 0x81, 0x01, 0x82, 0x02, 0x01,
    0x09, 0x01, 0x85, 0x0b, 0x96, 0x01, 0x02, 0x82, 0x02, 0x01,
    0x09, 0x01, 0x85, 0x0c, 0x96, 0xff, 0x02, 0x82, 0x02, 0x01,
    0x09, 0x01, 0x85, 0x0d, 0x95, 0x05, 0x92, 0x02, 0x01,
    0x09, 0x01, 0x85, 0x0e, 0x95, 0x09, 0x92, 0x02, 0x01,
    0x09, 0x01, 0x85, 0x0f, 0x95, 0x0d, 0x92, 0x02, 0x01,
    0x09, 0x01, 0x85, 0x10, 0x95, 0x11, 0x92, 0x02, 0x01,
    0x09, 0x01, 0x85, 0x11, 0x95, 0x19, 0x92, 0x02, 0x01,
    0x09, 0x01, 0x85, 0x12, 0x95, 0x31, 0x92, 0x02, 0x01,
    0x09, 0x01, 0x85, 0x13, 0x95, 0x5f, 0x92, 0x02, 0x01,
    0x09, 0x01, 0x85, 0x14, 0x95, 0xc1, 0x92, 0x02, 0x01,
    0x09, 0x01, 0x85, 0x15, 0x95, 0xff, 0x92, 0x02, 0x01, 0xc0]

def memcpy (dst src : Bytes) (n : Nat) : Exec Empty Bytes :=
  if n ≤ dst.length ∧ n ≤ src.length then .ok (src.take n ++ dst.drop n) else .error .panic

/-! ## Binding -/

/-- How the calls of `iphone_hid_bind` end. -/
structure Resources where
  fields : Bool := true
  endpoint : Bool := true
  buffers : Bool := true
  backend : Int := 0

/-- `max_len`. -/
def maxLen (reports : HidReports) : Nat :=
  reportIds.foldl (fun len id => max len (max (reports.input id).toNat (reports.output id).toNat)) 0

/-- `kzalloc(len)` for a report, with its id in the first byte. -/
def lastReport (id : UInt8) (len : Nat) : Bytes := (List.replicate len 0).set 0 id

/-- `iphone_hid_bind`. -/
def bind (res : Resources) (reportDesc : Bytes) : Except Int IphoneHid :=
  if !res.fields then .error (-ENOMEM)
  else
    match hidReportsParse reportDesc with
    | none => .error (-EPROTO)
    | some reports =>
      if !res.endpoint then .error (-ENODEV)
      else if !res.buffers then .error (-ENOMEM)
      else if res.backend ≠ 0 then .error res.backend
      else
        .ok {
          reports
          reportDesc
          last := fun id => if id = 0 then [] else lastReport id (reports.input id).toNat
          inReq := { buf := List.replicate (maxLen reports) 0 }
          ctrlReq := { buf := List.replicate (max (maxLen reports) reportDesc.length) 0 } }

/-! ## Control requests -/

def IphoneHid.setLength (self : IphoneHid) (length : Nat) : IphoneHid :=
  { self with ctrlReq := { self.ctrlReq with length } }

/-- `memcpy` into the buffer of the control request, and its length. -/
def IphoneHid.answer (self : IphoneHid) (src : Bytes) (length : Nat) :
    Exec Empty (Option IphoneHid) := do
  let buf ← memcpy self.ctrlReq.buf src length
  return some { self with ctrlReq := { self.ctrlReq with buf, length } }

/-- The switch of `iphone_hid_setup`; `goto out` is `none`. -/
def IphoneHid.request (self : IphoneHid) (ctrl : CtrlRequest) : Exec Empty (Option IphoneHid) :=
  let kind := ctrl.wValue.toNat / 256
  let id := ctrl.wValue.toUInt8
  let len := ctrl.wLength.toNat
  if ctrl.bRequestType = 0x21 then
    if !self.enabled then .ok none
    else if ctrl.bRequest = 0x09 then
      if kind ≠ 2 ∨ self.reports.output id = 0 then .ok none
      -- A length that does not match the descriptor is only written to the log.
      else .ok (some ({ self with outputId := id }.setLength len))
    else if ctrl.bRequest = 0x0a then
      if len ≠ 0 ∨ kind ≠ 0 ∨ (id ≠ 0 ∧ self.reports.input id = 0) then .ok none
      else .ok (some ({ self with idleRate := 0 }.setLength 0))
    else .ok none
  else if ctrl.bRequestType = 0xa1 then
    if !self.enabled then .ok none
    else if ctrl.bRequest = 0x01 then
      if kind ≠ 1 ∨ self.reports.input id = 0 then .ok none
      else self.answer (self.last id) (min len (self.reports.input id).toNat)
    else if ctrl.bRequest = 0x02 then
      if len ≠ 1 then .ok none else self.answer [self.idleRate] 1
    else .ok none
  else if ctrl.bRequestType = 0x81 then
    if ctrl.bRequest ≠ 0x06 then .ok none
    else if kind = 0x21 then self.answer hidDescriptor (min len hidDescriptor.length)
    else if kind = 0x22 then self.answer self.reportDesc (min len self.reportDesc.length)
    else .ok none
  else .ok none

/-- `iphone_hid_setup`; `queue` is what `usb_ep_queue` returns. -/
def setup (self : IphoneHid) (ctrl : CtrlRequest) (queue : Int) :
    Exec Empty (Int × IphoneHid × Option Queued) :=
  if self.stopped || self.ctrlPending then .ok (-EOPNOTSUPP, self, none)
  else do
    let self := { self with outputId := 0 }
    match ← self.request ctrl with
    | none => .ok (-EOPNOTSUPP, self, none)
    | some self =>
      let req := { self.ctrlReq with zero := self.ctrlReq.length < ctrl.wLength.toNat }
      .ok (queue, { self with ctrlReq := req, ctrlPending := queue = 0 },
        some { length := req.length, room := req.buf.length })

/-! ## Reports -/

def EAGAIN : Int := 11

def submitReport (self : IphoneHid) (report : Report) (queue : Int) :
    Exec Empty (Int × IphoneHid × Option Queued) :=
  if self.stopped || !self.enabled || self.active then
    .ok (if self.stopped then -ENODEV else -EAGAIN, self, none)
  else if report.len ≠ (self.reports.input report.reportId).toNat then .ok (-EINVAL, self, none)
  else do
    let stored ← memcpy (self.last report.reportId) report.data report.len
    let buf ← memcpy self.inReq.buf report.data report.len
    let last := fun id => if id = report.reportId then stored else self.last id
    .ok (queue,
      { self with last, inReq := { buf, length := report.len, zero := false }, active := queue = 0 },
      some { length := report.len, room := buf.length })

/-! ## All the calls -/

/-- The calls of the host, of the backend and of the endpoints, each with how the calls it makes
end. A control request that is complete has the data of the host in its buffer. -/
inductive Event
  | setup (ctrl : CtrlRequest) (queue : Int)
  | submitReport (report : Report) (queue : Int)
  | inComplete
  | controlComplete (data : Bytes)
  | enable (ret : Int)
  | disable
  | stop

def transfer (self : IphoneHid) : Event → Exec Empty (IphoneHid × Option Queued)
  | .setup ctrl queue => do
    let (_, self, queued) ← setup self ctrl queue
    .ok (self, queued)
  | .submitReport report queue => do
    let (_, self, queued) ← submitReport self report queue
    .ok (self, queued)
  | .inComplete => .ok ({ self with active := false }, none)
  | .controlComplete data =>
    let buf := data.take self.ctrlReq.buf.length ++ self.ctrlReq.buf.drop data.length
    .ok ({ self with ctrlReq := { self.ctrlReq with buf }, ctrlPending := false }, none)
  | .enable ret => .ok ({ self with enabled := !self.stopped && ret = 0 }, none)
  | .disable => .ok ({ self with enabled := false }, none)
  | .stop => .ok ({ self with stopped := true, enabled := false }, none)

/-- A step that does not panic. -/
def step (self : IphoneHid) (event : Event) : Option IphoneHid :=
  match transfer self event with
  | .ok (next, _) => some next
  | .error _ => none

end Catplay.Model.Iap2Usb.Gadget
