import Catplay.Library.Run
import Catplay.Model.Iap2Usb.HidFraming

/-!
# Receiving on the HID transport

`iap2_hid_set_report`, `iap2_hid_rx_work` and `iap2_hid_kick_rx` of `iap2_hid/iap2_hid.c` with
`iap2_rx_data` and `iap2_read` of `iap2_char/iap2_char_core.c`. A step is a block under a spin
lock, or what a thread does between two of them; allocations and `copy_to_user` are told how
they end. An error is a negative number, as in C.
-/

set_option autoImplicit false

namespace Catplay.Model.Iap2Usb

def ENOMEM : Int := 12
def EFAULT : Int := 14
def ENODEV : Int := 19
def EINVAL : Int := 22
def ENOSPC : Int := 28
def EPROTO : Int := 71
def EMSGSIZE : Int := 90
def EOPNOTSUPP : Int := 95

/-- `IAP2_RX_BACKLOG_MAX`. -/
def rxBacklogMax : Nat := 65535

/-- `IAP2_HID_RX_RECORDS`. -/
def hidRxRecords : Nat := 64

/-- `IAP2_HID_OUTPUT_REPORT`. -/
def hidOutputReport : Nat := 2

namespace Receive

/-! ## The session -/

structure RxRecord where
  data : Bytes
  off : Nat := 0
  deriving DecidableEq, Repr

structure Session where
  terminalError : Int := 0
  rxError : Int := 0
  started : Bool := true
  rxRecords : List RxRecord := []
  rxBytes : Nat := 0
  deriving DecidableEq, Repr

/-- `iap2_closed`: the first error wins, and it is negative. -/
def Session.closed (self : Session) (reason : Int) : Session :=
  if self.terminalError = 0 then
    { self with terminalError := if reason ≥ 0 then -ENODEV else reason }
  else self

/-- `iap2_rx_error`. -/
def Session.setRxError (self : Session) (error : Int) : Session :=
  if self.terminalError = 0 then { self with rxError := error } else self

/-- `iap2_rx_data`: all bytes are copied or none. -/
def Session.rxData (self : Session) (allocated : Bool) (data : Bytes) : Int × Session :=
  if data.length > rxBacklogMax then (-EMSGSIZE, self)
  else if data.length = 0 then (self.terminalError, self)
  else if !allocated then (-ENOMEM, self)
  else if self.terminalError ≠ 0 then (self.terminalError, self)
  else if self.rxBytes + data.length > rxBacklogMax then (-ENOSPC, self)
  else
    (0, { self with
      rxBytes := self.rxBytes + data.length
      rxError := 0
      rxRecords := self.rxRecords ++ [{ data }] })

/-! ## The transport -/

/-- Where `rx_work` is. -/
inductive RxWork
  | idle
  /-- Before the block at the top of the loop. -/
  | next
  /-- With the first report of the queue in hand. -/
  | receive
  /-- The session had no room. -/
  | noSpace
  /-- The session had no memory. -/
  | retry
  /-- The report or the session is in error. -/
  | failed (ret : Int)
  /-- The session has the report, which is still in the queue. -/
  | received
  deriving DecidableEq, Repr

/-- `rxPending` says that the delayed work is scheduled. -/
structure Hid where
  terminalError : Int := 0
  rxQueue : List Bytes := []
  rxBytes : Nat := 0
  rxRecords : Nat := 0
  rxPending : Bool := false
  rxContinuing : Bool := false
  rxWork : RxWork := .idle
  deriving DecidableEq, Repr

/-- `iap2_hid_schedule_rx`. -/
def Hid.scheduleRx (self : Hid) : Hid :=
  if self.terminalError = 0 then { self with rxPending := true } else self

/-- The checks of `iap2_hid_set_report`. There are no data where the pointer is null. -/
def Hid.checkReport (self : Hid) (output : Sizes) (reportType : Nat) (data : Option Bytes) : Int :=
  if self.terminalError ≠ 0 then self.terminalError
  else if reportType ≠ hidOutputReport then -EOPNOTSUPP
  else
    match data with
    | none => -EPROTO
    | some data =>
      if data.length > maxReportLen output then -EMSGSIZE
      else if data.length = 0 then -EPROTO
      else if self.rxRecords ≥ hidRxRecords ∨ self.rxBytes + data.length > rxBacklogMax then -ENOSPC
      else 0

/-- The reservation that goes before the allocation. -/
def Hid.reserve (self : Hid) (data : Bytes) : Hid :=
  { self with rxRecords := self.rxRecords + 1, rxBytes := self.rxBytes + data.length }

/-- The second block of `iap2_hid_set_report`. -/
def Hid.enqueue (self : Hid) (allocated : Bool) (data : Bytes) : Int × Hid :=
  let ret := if self.terminalError ≠ 0 then self.terminalError
    else if allocated then 0 else -ENOMEM
  if ret = 0 then
    (ret, { self with rxQueue := self.rxQueue ++ [data], rxPending := true })
  else
    (ret, { self with
      rxRecords := self.rxRecords - 1, rxBytes := self.rxBytes - data.length })

/-! ## The system -/

/-- `reservations` are the calls of `iap2_hid_set_report` between their two blocks, `reader` is
the length that the holder of `read_mutex` copies, and `kicks` counts the readers that have
freed a record and not called `kick_rx`. -/
structure State where
  hid : Hid := {}
  session : Session := {}
  reservations : List Bytes := []
  reader : Option Nat := none
  kicks : Nat := 0
  stopping : Bool := false
  deriving DecidableEq, Repr

/-- `iap2_hid_closed`. -/
def State.closed (self : State) (reason : Int) : State :=
  if self.hid.terminalError = 0 then
    let reason := if reason ≥ 0 then -ENODEV else reason
    { self with
      hid := { self.hid with terminalError := reason }
      session := self.session.closed reason }
  else self

/-- `iap2_hid_receive_report`, and where `rx_work` goes from there. -/
def State.receiveReport (self : State) (allocated : Bool) (report : Bytes) : State :=
  match hidReportDecode self.hid.rxContinuing report with
  | (.error _, _) => { self with hid := { self.hid with rxWork := .failed (-EPROTO) } }
  | (.ok fragment, continuing) =>
    let (ret, session) := self.session.rxData allocated fragment.data
    let hid := self.hid
    if ret = -ENOSPC then { self with session, hid := { hid with rxWork := .noSpace } }
    else if ret = -ENOMEM then { self with session, hid := { hid with rxWork := .retry } }
    else if ret ≠ 0 then { self with session, hid := { hid with rxWork := .failed ret } }
    else { self with session, hid := { hid with rxWork := .received, rxContinuing := continuing } }

/-- What `rx_work` does next. A scheduled work begins when the one before has returned. -/
def State.rxWork (self : State) (allocated : Bool) : Option State :=
  let hid := self.hid
  match hid.rxWork with
  | .idle =>
    if hid.rxPending then some { self with hid := { hid with rxPending := false, rxWork := .next } }
    else none
  | .next =>
    if hid.terminalError ≠ 0 ∨ hid.rxQueue = [] then
      some { self with hid := { hid with rxWork := .idle } }
    else some { self with hid := { hid with rxWork := .receive } }
  | .receive => hid.rxQueue.head?.map (self.receiveReport allocated)
  | .noSpace => some { self with hid := { hid with rxWork := .idle } }
  | .retry => some { self with hid := { hid.scheduleRx with rxWork := .idle } }
  | .failed ret =>
    let closed := self.closed ret
    some { closed with hid := { closed.hid with rxWork := .idle } }
  | .received =>
    hid.rxQueue.head?.map fun report =>
      { self with hid := { hid with
        rxQueue := hid.rxQueue.tail
        rxBytes := hid.rxBytes - report.length
        rxRecords := hid.rxRecords - 1
        rxWork := .next } }

/-- The block of `iap2_read` that finds a record. The call has a result, or the length to copy. -/
def Session.readBegin (self : Session) (count : Nat) : Int ⊕ Nat :=
  if self.terminalError ≠ 0 then .inl self.terminalError
  else
    match self.rxRecords with
    | [] => .inl self.rxError
    | rec :: _ => .inr (min count (rec.data.length - rec.off))

/-- The block of `iap2_read` behind the copy, and whether it frees the record. -/
def Session.readEnd (self : Session) (len : Nat) : Bool × Session :=
  match self.rxRecords with
  | [] => (false, self)
  | rec :: rest =>
    if rec.off + len = rec.data.length then
      (true, { self with rxRecords := rest, rxBytes := self.rxBytes - rec.data.length })
    else (false, { self with rxRecords := { rec with off := rec.off + len } :: rest })

inductive Event
  /-- The first block of `iap2_hid_set_report`. -/
  | setReport (reportType : Nat) (data : Option Bytes)
  /-- The second block of one of the calls. -/
  | enqueue (i : Nat) (allocated : Bool)
  | rxWork (allocated : Bool)
  /-- A call of `iap2_read` with a count that is not zero. -/
  | read (count : Nat)
  /-- The end of `copy_to_user`. -/
  | copied (success : Bool)
  /-- A reader that has freed a record takes `io_mutex`. -/
  | kick
  | rxError (error : Int)
  /-- `iap2_hid_closed`. -/
  | hidClosed (reason : Int)
  /-- `iap2_closed` by the owner of the session. -/
  | closed (reason : Int)
  /-- `iap2_close_work` calls `stop`. -/
  | stop
  /-- `stop` has joined the work and the calls of the arbiter. -/
  | stopped
  deriving DecidableEq, Repr

def step (output : Sizes) (s : State) : Event → Option State
  | .setReport reportType data =>
    if s.hid.checkReport output reportType data = 0 then
      data.map fun data =>
        { s with hid := s.hid.reserve data, reservations := s.reservations ++ [data] }
    else some s
  | .enqueue i allocated =>
    s.reservations[i]?.map fun data =>
      { s with hid := (s.hid.enqueue allocated data).2, reservations := s.reservations.eraseIdx i }
  | .rxWork allocated => s.rxWork allocated
  | .read count =>
    if s.reader.isSome then none
    else
      match s.session.readBegin count with
      | .inl _ => some s
      | .inr len => some { s with reader := some len }
  | .copied success =>
    s.reader.map fun len =>
      if success then
        let (freed, session) := s.session.readEnd len
        { s with session, reader := none, kicks := if freed then s.kicks + 1 else s.kicks }
      else { s with reader := none }
  | .kick =>
    if s.kicks = 0 ∨ s.stopping then none
    else if s.session.started ∧ s.session.terminalError = 0 then
      some { s with hid := s.hid.scheduleRx, kicks := s.kicks - 1 }
    else some { s with kicks := s.kicks - 1 }
  | .rxError error => some { s with session := s.session.setRxError error }
  | .hidClosed reason => some (s.closed reason)
  | .closed reason => some { s with session := s.session.closed reason }
  | .stop =>
    if s.session.terminalError ≠ 0 ∧ s.session.started ∧ !s.stopping then
      some { s with
        hid := { s.hid with terminalError := s.session.terminalError }
        stopping := true }
    else none
  | .stopped =>
    if s.stopping ∧ s.hid.rxWork = .idle ∧ s.reservations = [] then
      some { s with
        hid := { s.hid with rxPending := false, rxQueue := [], rxBytes := 0, rxRecords := 0 }
        session := { s.session with started := false }
        stopping := false }
    else none

/-! ## What has been accepted and read -/

/-- The reports for which `iap2_hid_set_report` has returned 0, and the bytes that readers have
got. -/
structure History where
  accepted : List Bytes := []
  bytesRead : Bytes := []
  deriving DecidableEq, Repr

def note (s : State) (event : Event) (_ : State) (h : History) : History :=
  match event with
  | .enqueue i allocated =>
    match s.reservations[i]? with
    | some data =>
      if (s.hid.enqueue allocated data).1 = 0 then { h with accepted := h.accepted ++ [data] }
      else h
    | none => h
  | .copied true =>
    match s.reader, s.session.rxRecords with
    | some len, rec :: _ => { h with bytesRead := h.bytesRead ++ (rec.data.drop rec.off).take len }
    | _, _ => h
  | _ => h

end Receive

end Catplay.Model.Iap2Usb
