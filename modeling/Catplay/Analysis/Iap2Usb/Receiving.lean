import Catplay.Model.Iap2Usb.HidReceive
import Mathlib.Data.UInt

/-!
# Nothing is lost on the way in

A report moves from the queue of the transport to the records of the session, and from there
to the readers. As long as no terminal error is set, what was accepted is what was read, what
is in the records and what is in the queue (`Flowing`), the counters are the lengths, and a
queue that nobody works on has a reader who will kick the work (`rx_lossless`).
-/

set_option autoImplicit false

namespace Catplay.Analysis.Iap2Usb

open Catplay.Library.Run Catplay.Model.Iap2Usb Catplay.Model.Iap2Usb.Receive

/-! ## Bytes -/

/-- The payload of a report, padding included. -/
def payload (report : Bytes) : Bytes := report.drop 2

def payloads (reports : List Bytes) : Bytes := reports.flatMap payload

/-- What is left of the records of the session. -/
def unread (records : List RxRecord) : Bytes := records.flatMap fun rec => rec.data.drop rec.off

def lengths (reports : List Bytes) : Nat := (reports.map List.length).sum

theorem payloads_append (first second : List Bytes) :
    payloads (first ++ second) = payloads first ++ payloads second := by
  unfold payloads
  rw [List.flatMap_append]

theorem lengths_append (first second : List Bytes) :
    lengths (first ++ second) = lengths first + lengths second := by
  unfold lengths
  rw [List.map_append, List.sum_append]

@[simp] theorem lengths_cons (report : Bytes) (reports : List Bytes) :
    lengths (report :: reports) = report.length + lengths reports := by
  unfold lengths
  rw [List.map_cons, List.sum_cons]

variable {i : Nat} {report data : Bytes} {s t : State} {output : Sizes} {h : History}

theorem lengths_eraseIdx {reports : List Bytes} (h : reports[i]? = some report) :
    lengths reports = lengths (reports.eraseIdx i) + report.length := by
  induction reports generalizing i with
  | nil => cases h
  | cons first reports ih =>
    cases i with
    | zero =>
      obtain rfl := Option.some.inj h
      rw [List.eraseIdx_cons_zero, lengths_cons, Nat.add_comm]
    | succ i =>
      rw [List.getElem?_cons_succ] at h
      rw [List.eraseIdx_cons_succ, lengths_cons, lengths_cons, ih h, Nat.add_assoc]

/-- A fragment is what stands behind the header of its report. -/
theorem hidReportDecode_payload {continuing next : Bool} {fragment : HidFragment}
    (h : hidReportDecode continuing report = (.ok fragment, next)) :
    fragment.data = payload report ∧ fragment.data ≠ [] ∧
      fragment.data.length + 2 = report.length := by
  unfold hidReportDecode at h
  match report, h with
  | [], h => cases h
  | [_], h => cases h
  | id :: flags :: data, h =>
    dsimp only at h
    split at h
    · cases h
    · rename_i hgood
      cases h
      exact ⟨rfl, fun hnil => hgood (Or.inl hnil), rfl⟩

/-! ## The invariant -/

/-- No terminal error is set. -/
structure Open (s : State) : Prop where
  hid : s.hid.terminalError = 0
  session : s.session.terminalError = 0

/-- The reports that the session has not got: the first one of the queue may be delivered. -/
def undelivered (hid : Hid) : List Bytes :=
  match hid.rxWork with
  | .received => hid.rxQueue.tail
  | _ => hid.rxQueue

/-- The work will not look at the queue again by itself. -/
def Resting (hid : Hid) : Prop :=
  hid.rxPending = false ∧ (hid.rxWork = .idle ∨ hid.rxWork = .noSpace)

/-- **What holds until a terminal error is set.** -/
structure Flowing (s : State) (h : History) : Prop where
  lossless : h.bytesRead ++ unread s.session.rxRecords ++ payloads (undelivered s.hid) =
    payloads h.accepted
  sessionBytes : s.session.rxBytes = (s.session.rxRecords.map fun rec => rec.data.length).sum
  sessionMax : s.session.rxBytes ≤ rxBacklogMax
  inside : ∀ rec ∈ s.session.rxRecords, rec.off ≤ rec.data.length
  hidBytes : s.hid.rxBytes = lengths s.hid.rxQueue + lengths s.reservations
  hidMax : s.hid.rxBytes ≤ rxBacklogMax
  copying : ∀ len, s.reader = some len → ∃ rec rest, s.session.rxRecords = rec :: rest ∧
    rec.off + len ≤ rec.data.length
  inHand : s.hid.rxWork = .receive ∨ s.hid.rxWork = .received → s.hid.rxQueue ≠ []
  awake : s.hid.rxQueue ≠ [] → Resting s.hid → s.session.rxRecords ≠ [] ∨ 0 < s.kicks
  running : s.session.started = true ∧ s.stopping = false

/-! ## Terminal errors stay -/

theorem terminalError_closed (session : Session) (reason : Int) :
    (session.closed reason).terminalError ≠ 0 := by
  unfold Session.closed
  split
  · show (if reason ≥ 0 then -ENODEV else reason) ≠ 0
    unfold ENODEV
    split <;> omega
  · assumption

theorem terminalError_hidClosed (s : State) (reason : Int) :
    (s.closed reason).hid.terminalError ≠ 0 := by
  unfold State.closed
  split
  · show (if reason ≥ 0 then -ENODEV else reason) ≠ 0
    unfold ENODEV
    split <;> omega
  · assumption

theorem terminalError_rxData (session : Session) (allocated : Bool) (data : Bytes) :
    (session.rxData allocated data).2.terminalError = session.terminalError := by
  unfold Session.rxData
  repeat' split
  all_goals rfl

theorem terminalError_readEnd (session : Session) (len : Nat) :
    (session.readEnd len).2.terminalError = session.terminalError := by
  unfold Session.readEnd
  split
  · rfl
  · split <;> rfl

theorem terminalError_enqueue (hid : Hid) (allocated : Bool) (data : Bytes) :
    (hid.enqueue allocated data).2.terminalError = hid.terminalError := by
  unfold Hid.enqueue
  dsimp only
  repeat' split
  all_goals rfl

/-- Handing over a report touches no terminal error. -/
theorem terminalError_receiveReport (s : State) (allocated : Bool) (report : Bytes) :
    (s.receiveReport allocated report).hid.terminalError = s.hid.terminalError ∧
      (s.receiveReport allocated report).session.terminalError = s.session.terminalError := by
  unfold State.receiveReport
  split
  · exact ⟨rfl, rfl⟩
  · rename_i fragment continuing hdecode
    have hsession := terminalError_rxData s.session allocated fragment.data
    dsimp only
    repeat' split
    all_goals exact ⟨rfl, hsession⟩

theorem open_of_rxWork {allocated : Bool} (h : s.rxWork allocated = some t)
    (ht : Open t) : Open s := by
  unfold State.rxWork at h
  dsimp only at h
  split at h
  · split at h
    · cases h
      exact ⟨ht.hid, ht.session⟩
    · cases h
  · split at h <;> cases h <;> exact ⟨ht.hid, ht.session⟩
  · obtain ⟨report, -, rfl⟩ := Option.map_eq_some_iff.mp h
    obtain ⟨hhid, hsession⟩ := terminalError_receiveReport s allocated report
    exact ⟨hhid ▸ ht.hid, hsession ▸ ht.session⟩
  · cases h
    exact ⟨ht.hid, ht.session⟩
  · cases h
    refine ⟨?_, ht.session⟩
    have hhid := ht.hid
    unfold Hid.scheduleRx at hhid
    split at hhid <;> assumption
  · cases h
    exact absurd ht.hid (terminalError_hidClosed s _)
  · obtain ⟨report, -, rfl⟩ := Option.map_eq_some_iff.mp h
    exact ⟨ht.hid, ht.session⟩

theorem open_of_step {event : Event} (h : step output s event = some t) (ht : Open t) : Open s := by
  cases event with
  | setReport reportType data =>
    unfold step at h
    dsimp only at h
    split at h
    · obtain ⟨data, -, rfl⟩ := Option.map_eq_some_iff.mp h
      exact ⟨ht.hid, ht.session⟩
    · cases h
      exact ht
  | enqueue i allocated =>
    obtain ⟨data, -, rfl⟩ := Option.map_eq_some_iff.mp h
    exact ⟨terminalError_enqueue s.hid allocated data ▸ ht.hid, ht.session⟩
  | rxWork allocated => exact open_of_rxWork h ht
  | read count =>
    unfold step at h
    dsimp only at h
    split at h
    · cases h
    · split at h <;> cases h <;> exact ⟨ht.hid, ht.session⟩
  | copied success =>
    obtain ⟨len, -, rfl⟩ := Option.map_eq_some_iff.mp h
    cases success with
    | false => exact ⟨ht.hid, ht.session⟩
    | true => exact ⟨ht.hid, terminalError_readEnd s.session len ▸ ht.session⟩
  | kick =>
    unfold step at h
    dsimp only at h
    split at h
    · cases h
    · split at h
      · cases h
        refine ⟨?_, ht.session⟩
        have hhid := ht.hid
        dsimp only at hhid
        unfold Hid.scheduleRx at hhid
        split at hhid <;> assumption
      · cases h
        exact ⟨ht.hid, ht.session⟩
  | rxError error =>
    cases h
    refine ⟨ht.hid, ?_⟩
    have hsession := ht.session
    dsimp only at hsession
    unfold Session.setRxError at hsession
    split at hsession <;> assumption
  | hidClosed reason =>
    cases h
    exact absurd ht.hid (terminalError_hidClosed s reason)
  | closed reason =>
    cases h
    exact absurd ht.session (terminalError_closed s.session reason)
  | stop =>
    unfold step at h
    dsimp only at h
    split at h
    · rename_i hstop
      cases h
      exact absurd ht.hid hstop.1
    · cases h
  | stopped =>
    unfold step at h
    dsimp only at h
    split at h
    · cases h
      exact ⟨ht.hid, ht.session⟩
    · cases h

/-! ## One step -/

/-- A reservation is made. -/
theorem Flowing.reserve (hflow : Flowing s h) (hroom : s.hid.rxBytes + data.length ≤ rxBacklogMax) :
    Flowing { s with hid := s.hid.reserve data, reservations := s.reservations ++ [data] } h where
  lossless := hflow.lossless
  sessionBytes := hflow.sessionBytes
  sessionMax := hflow.sessionMax
  inside := hflow.inside
  hidBytes := by
    show s.hid.rxBytes + data.length = lengths s.hid.rxQueue + lengths (s.reservations ++ [data])
    rw [lengths_append, hflow.hidBytes, Nat.add_assoc]
    rfl
  hidMax := hroom
  copying := hflow.copying
  inHand := hflow.inHand
  awake := hflow.awake
  running := hflow.running

/-- The report of a reservation enters the queue. -/
theorem Flowing.accept (hflow : Flowing s h) (hi : s.reservations[i]? = some data) :
    Flowing { s with
      hid := { s.hid with rxQueue := s.hid.rxQueue ++ [data], rxPending := true }
      reservations := s.reservations.eraseIdx i } { h with accepted := h.accepted ++ [data] } where
  lossless := by
    have hqueue : undelivered { s.hid with rxQueue := s.hid.rxQueue ++ [data], rxPending := true } =
        undelivered s.hid ++ [data] := by
      unfold undelivered
      dsimp only
      split
      · rename_i hreceived
        exact List.tail_append_of_ne_nil (hflow.inHand (Or.inr hreceived))
      · rfl
    show h.bytesRead ++ unread s.session.rxRecords ++ payloads (undelivered _) =
      payloads (h.accepted ++ [data])
    rw [hqueue, payloads_append, payloads_append, ← hflow.lossless, List.append_assoc,
      List.append_assoc, List.append_assoc]
  sessionBytes := hflow.sessionBytes
  sessionMax := hflow.sessionMax
  inside := hflow.inside
  hidBytes := by
    show s.hid.rxBytes = lengths (s.hid.rxQueue ++ [data]) + lengths (s.reservations.eraseIdx i)
    have hsum := hflow.hidBytes
    rw [lengths_eraseIdx hi] at hsum
    rw [hsum, lengths_append]
    show _ = lengths s.hid.rxQueue + data.length + _
    omega
  hidMax := hflow.hidMax
  copying := hflow.copying
  inHand := fun _ => by simp
  awake := fun _ hrest => by cases hrest.1
  running := hflow.running

/-- A reservation is given back. -/
theorem Flowing.refuse (hflow : Flowing s h) (hi : s.reservations[i]? = some data) :
    Flowing { s with
      hid := { s.hid with
        rxRecords := s.hid.rxRecords - 1, rxBytes := s.hid.rxBytes - data.length }
      reservations := s.reservations.eraseIdx i } h where
  lossless := hflow.lossless
  sessionBytes := hflow.sessionBytes
  sessionMax := hflow.sessionMax
  inside := hflow.inside
  hidBytes := by
    show s.hid.rxBytes - data.length = _ + lengths (s.reservations.eraseIdx i)
    have hsum := hflow.hidBytes
    rw [lengths_eraseIdx hi] at hsum
    dsimp only
    omega
  hidMax := Nat.le_trans (Nat.sub_le _ _) hflow.hidMax
  copying := hflow.copying
  inHand := hflow.inHand
  awake := hflow.awake
  running := hflow.running

/-- The work moves without touching a queue. -/
theorem Flowing.work (hflow : Flowing s h) {hid : Hid} (hqueue : hid.rxQueue = s.hid.rxQueue)
    (hbytes : hid.rxBytes = s.hid.rxBytes) (hplace : s.hid.rxWork ≠ .received)
    (hplace' : hid.rxWork ≠ .received) (hhand : hid.rxWork = .receive → hid.rxQueue ≠ [])
    (hawake : hid.rxQueue ≠ [] → Resting hid → s.session.rxRecords ≠ [] ∨ 0 < s.kicks) :
    Flowing { s with hid } h where
  lossless := by
    have hsame : ∀ hid : Hid, hid.rxWork ≠ .received → undelivered hid = hid.rxQueue := by
      intro hid hplace
      unfold undelivered
      split
      · rename_i hreceived
        exact absurd hreceived hplace
      · rfl
    have hold := hflow.lossless
    rw [hsame _ hplace] at hold
    show h.bytesRead ++ unread s.session.rxRecords ++ payloads (undelivered hid) = _
    rw [hsame _ hplace', hqueue]
    exact hold
  sessionBytes := hflow.sessionBytes
  sessionMax := hflow.sessionMax
  inside := hflow.inside
  hidBytes := by
    show hid.rxBytes = lengths hid.rxQueue + _
    rw [hbytes, hqueue]
    exact hflow.hidBytes
  hidMax := by
    show hid.rxBytes ≤ _
    rw [hbytes]
    exact hflow.hidMax
  copying := hflow.copying
  inHand := fun hwork => hhand (hwork.resolve_right hplace')
  awake := hawake
  running := hflow.running

/-- The answers of a session that is open. -/
theorem rxData_cases {session : Session} (hopen : session.terminalError = 0)
    (hpositive : 0 < data.length) (hsmall : data.length ≤ rxBacklogMax) (allocated : Bool) :
    session.rxData allocated data = (-ENOMEM, session) ∨
    (session.rxData allocated data = (-ENOSPC, session) ∧
      rxBacklogMax < session.rxBytes + data.length) ∨
    (session.rxData allocated data = (0, { session with
        rxBytes := session.rxBytes + data.length
        rxError := 0
        rxRecords := session.rxRecords ++ [{ data }] }) ∧
      session.rxBytes + data.length ≤ rxBacklogMax) := by
  unfold Session.rxData
  rw [if_neg (by omega), if_neg (by omega)]
  cases allocated with
  | false => exact Or.inl rfl
  | true =>
    rw [if_neg (by simp), if_neg (fun hterminal => hterminal hopen)]
    by_cases hroom : session.rxBytes + data.length > rxBacklogMax
    · rw [if_pos hroom]
      exact Or.inr (Or.inl ⟨rfl, hroom⟩)
    · rw [if_neg hroom]
      exact Or.inr (Or.inr ⟨rfl, Nat.le_of_not_lt hroom⟩)

/-- The session has copied the report in hand. -/
theorem Flowing.deliver (hflow : Flowing s h) (hwork : s.hid.rxWork = .receive) {rest : List Bytes}
    (hqueue : s.hid.rxQueue = report :: rest) (hdata : data = payload report)
    (hroom : s.session.rxBytes + data.length ≤ rxBacklogMax) (continuing : Bool) :
    Flowing { s with
      session := { s.session with
        rxBytes := s.session.rxBytes + data.length
        rxError := 0
        rxRecords := s.session.rxRecords ++ [{ data }] }
      hid := { s.hid with rxWork := .received, rxContinuing := continuing } } h where
  lossless := by
    have hold := hflow.lossless
    have hall : undelivered s.hid = report :: rest := by
      unfold undelivered
      rw [hwork, hqueue]
    rw [hall] at hold
    show h.bytesRead ++ unread (s.session.rxRecords ++ [⟨data, 0⟩]) ++
      payloads s.hid.rxQueue.tail = _
    rw [hqueue, ← hold]
    unfold unread payloads
    rw [List.flatMap_append, List.flatMap_singleton, hdata, List.drop_zero, List.flatMap_cons]
    simp only [List.append_assoc, List.tail_cons]
  sessionBytes := by
    show s.session.rxBytes + data.length = _
    rw [List.map_append, List.sum_append, hflow.sessionBytes]
    rfl
  sessionMax := hroom
  inside := by
    intro rec hrec
    rcases List.mem_append.mp hrec with hrec | hrec
    · exact hflow.inside rec hrec
    · rw [List.mem_singleton.mp hrec]
      exact Nat.zero_le _
  hidBytes := hflow.hidBytes
  hidMax := hflow.hidMax
  copying := by
    intro len hlen
    obtain ⟨rec, records, hrecords, hfits⟩ := hflow.copying len hlen
    refine ⟨rec, records ++ [⟨data, 0⟩], ?_, hfits⟩
    show s.session.rxRecords ++ _ = _
    rw [hrecords]
    rfl
  inHand := fun _ => by
    show s.hid.rxQueue ≠ []
    rw [hqueue]
    exact List.cons_ne_nil _ _
  awake := fun _ hrest => by
    rcases hrest.2 with hidle | hspace
    · cases hidle
    · cases hspace
  running := hflow.running

/-- The report in hand goes to the session, which copies it or has no room. -/
theorem Flowing.receiveReport (hflow : Flowing s h) (hopen : Open s)
    (hwork : s.hid.rxWork = .receive) (hhead : s.hid.rxQueue.head? = some report)
    (allocated : Bool) : Flowing (s.receiveReport allocated report) h := by
  have hplace : s.hid.rxWork ≠ .received := by simp [hwork]
  -- every answer but the last leaves the session as it was
  have hsame : ∀ work : RxWork, work ≠ .received → work ≠ .receive →
      (work = .noSpace → s.session.rxRecords ≠ []) → work ≠ .idle →
      Flowing { s with hid := { s.hid with rxWork := work } } h := by
    intro work hreceived hreceive hspace hidle
    refine hflow.work rfl rfl hplace hreceived (fun heq => absurd heq hreceive) fun _ hrest => ?_
    exact Or.inl (hspace (hrest.2.resolve_left hidle))
  unfold State.receiveReport
  rcases hdecode : hidReportDecode s.hid.rxContinuing report with ⟨e | fragment, continuing⟩
  · exact hsame _ (by simp) (by simp) (by simp) (by simp)
  obtain ⟨hdata, hnonempty, hlength⟩ := hidReportDecode_payload hdecode
  obtain ⟨rest, hqueue⟩ := List.head?_eq_some_iff.mp hhead
  have hmax := hflow.hidMax
  have hsum := hflow.hidBytes
  rw [hqueue, lengths_cons] at hsum
  have hpositive := List.length_pos_iff.mpr hnonempty
  have hsmall : fragment.data.length ≤ rxBacklogMax := by omega
  dsimp only
  rcases rxData_cases hopen.session hpositive hsmall allocated with hret | ⟨hret, hfull⟩ |
    ⟨hret, hroom⟩
  · rw [hret]
    exact hsame .retry (by simp) (by simp) (by simp) (by simp)
  · rw [hret]
    refine hsame .noSpace (by simp) (by simp) (fun _ hnil => ?_) (by simp)
    have hbytes := hflow.sessionBytes
    rw [hnil, List.map_nil, List.sum_nil] at hbytes
    omega
  · rw [hret]
    exact hflow.deliver hwork hqueue hdata hroom continuing

/-- The delivered report leaves the queue. -/
theorem Flowing.unlink (hflow : Flowing s h) (hwork : s.hid.rxWork = .received)
    (hhead : s.hid.rxQueue.head? = some report) :
    Flowing { s with hid := { s.hid with
      rxQueue := s.hid.rxQueue.tail
      rxBytes := s.hid.rxBytes - report.length
      rxRecords := s.hid.rxRecords - 1
      rxWork := .next } } h where
  lossless := by
    have hold := hflow.lossless
    unfold undelivered at hold
    rw [hwork] at hold
    exact hold
  sessionBytes := hflow.sessionBytes
  sessionMax := hflow.sessionMax
  inside := hflow.inside
  hidBytes := by
    have hsum := hflow.hidBytes
    obtain ⟨rest, hqueue⟩ := List.head?_eq_some_iff.mp hhead
    rw [hqueue, lengths_cons] at hsum
    show s.hid.rxBytes - report.length = lengths s.hid.rxQueue.tail + lengths s.reservations
    rw [hqueue, List.tail_cons]
    omega
  hidMax := Nat.le_trans (Nat.sub_le _ _) hflow.hidMax
  copying := hflow.copying
  inHand := by simp
  awake := fun _ hrest => by
    rcases hrest.2 with hidle | hspace
    · cases hidle
    · cases hspace
  running := hflow.running

/-- **The work** takes a step. -/
theorem Flowing.rxWork (hflow : Flowing s h) (hopen : Open s)
    (ht : Open t) {allocated : Bool} (hstep : s.rxWork allocated = some t) : Flowing t h := by
  unfold State.rxWork at hstep
  dsimp only at hstep
  split at hstep
  · rename_i hwork
    split at hstep
    · cases hstep
      refine hflow.work rfl rfl (by simp [hwork]) (by simp) (by simp) fun _ hrest => ?_
      rcases hrest.2 with hidle | hspace
      · cases hidle
      · cases hspace
    · cases hstep
  · rename_i hwork
    split at hstep
    · rename_i hend
      cases hstep
      refine hflow.work rfl rfl (by simp [hwork]) (by simp) (by simp) fun hne _ => ?_
      exact absurd (hend.resolve_left (fun hterminal => hterminal hopen.hid)) hne
    · rename_i hend
      cases hstep
      refine hflow.work rfl rfl (by simp [hwork]) (by simp) (fun _ hnil => hend (Or.inr hnil))
        fun _ hrest => ?_
      rcases hrest.2 with hidle | hspace
      · cases hidle
      · cases hspace
  · rename_i hwork
    obtain ⟨report, hhead, rfl⟩ := Option.map_eq_some_iff.mp hstep
    exact hflow.receiveReport hopen hwork hhead allocated
  · rename_i hwork
    cases hstep
    refine hflow.work rfl rfl (by simp [hwork]) (by simp) (by simp) fun hne hrest => ?_
    exact hflow.awake hne ⟨hrest.1, Or.inr hwork⟩
  · rename_i hwork
    cases hstep
    have hsched : s.hid.scheduleRx = { s.hid with rxPending := true } := by
      unfold Hid.scheduleRx
      rw [if_pos hopen.hid]
    rw [hsched]
    exact hflow.work rfl rfl (by simp [hwork]) (by simp) (by simp) fun _ hrest => by cases hrest.1
  · cases hstep
    exact absurd ht.hid (terminalError_hidClosed s _)
  · rename_i hwork
    obtain ⟨report, hhead, rfl⟩ := Option.map_eq_some_iff.mp hstep
    exact hflow.unlink hwork hhead

/-- A reader gets the bytes that it has copied. -/
theorem Flowing.readEnd (hflow : Flowing s h) {len : Nat} (hreader : s.reader = some len) :
    Flowing { s with
      session := (s.session.readEnd len).2
      reader := none
      kicks := if (s.session.readEnd len).1 then s.kicks + 1 else s.kicks }
      (note s (.copied true) s h) := by
  obtain ⟨rec, rest, hrecords, hfits⟩ := hflow.copying len hreader
  have hnote : note s (.copied true) s h =
      { h with bytesRead := h.bytesRead ++ (rec.data.drop rec.off).take len } := by
    unfold note
    rw [hreader, hrecords]
  have hold := hflow.lossless
  have hsum := hflow.sessionBytes
  have hmax := hflow.sessionMax
  unfold unread at hold
  rw [hrecords, List.flatMap_cons] at hold
  rw [hrecords, List.map_cons, List.sum_cons] at hsum
  have hsplit : (rec.data.drop rec.off).take len ++ rec.data.drop (rec.off + len) =
      rec.data.drop rec.off := by
    rw [← List.drop_drop, List.take_append_drop]
  have hinside := hflow.inside
  rw [hrecords] at hinside
  rw [hnote]
  by_cases hend : rec.off + len = rec.data.length
  · have hall : (rec.data.drop rec.off).take len = rec.data.drop rec.off := by
      refine List.take_of_length_le ?_
      rw [List.length_drop]
      omega
    have hfree : s.session.readEnd len = (true, { s.session with
        rxRecords := rest, rxBytes := s.session.rxBytes - rec.data.length }) := by
      unfold Session.readEnd
      rw [hrecords]
      exact if_pos hend
    rw [hfree]
    refine ⟨?_, ?_, Nat.le_trans (Nat.sub_le _ _) hmax,
      fun r hr => hinside r (List.mem_cons_of_mem _ hr), hflow.hidBytes, hflow.hidMax,
      fun len hlen => (by cases hlen), hflow.inHand, fun _ _ => Or.inr (Nat.succ_pos _),
      hflow.running⟩
    · show h.bytesRead ++ (rec.data.drop rec.off).take len ++ unread rest ++ _ = _
      rw [hall, ← hold]
      unfold unread
      simp only [List.append_assoc]
    · show s.session.rxBytes - rec.data.length = (rest.map fun rec => rec.data.length).sum
      omega
  · have hkeep : s.session.readEnd len = (false, { s.session with
        rxRecords := { rec with off := rec.off + len } :: rest }) := by
      unfold Session.readEnd
      rw [hrecords]
      exact if_neg hend
    rw [hkeep]
    refine ⟨?_, hsum, hmax, ?_, hflow.hidBytes, hflow.hidMax, fun len hlen => (by cases hlen),
      hflow.inHand, fun _ _ => Or.inl (List.cons_ne_nil _ _), hflow.running⟩
    · show h.bytesRead ++ (rec.data.drop rec.off).take len ++
        unread ({ rec with off := rec.off + len } :: rest) ++ _ = _
      unfold unread
      rw [List.flatMap_cons, ← hold, List.append_assoc h.bytesRead, ← List.append_assoc (List.take _ _),
        hsplit]
    · intro r hr
      rcases List.mem_cons.mp hr with rfl | hr
      · exact hfits
      · exact hinside r (List.mem_cons_of_mem _ hr)

/-- A reader has found a record. -/
theorem Flowing.readBegin (hflow : Flowing s h) {count len : Nat}
    (hbegin : s.session.readBegin count = .inr len) :
    Flowing { s with reader := some len } h := by
  refine ⟨hflow.lossless, hflow.sessionBytes, hflow.sessionMax, hflow.inside, hflow.hidBytes,
    hflow.hidMax, fun len' hlen' => ?_, hflow.inHand, hflow.awake, hflow.running⟩
  obtain rfl := Option.some.inj hlen'
  unfold Session.readBegin at hbegin
  split at hbegin
  · cases hbegin
  · split at hbegin
    · cases hbegin
    · rename_i rec rest hrecords
      cases hbegin
      have hinside := hflow.inside rec (by rw [hrecords]; exact List.mem_cons_self)
      exact ⟨rec, rest, hrecords, by omega⟩

/-- A report that passes the checks has room. -/
theorem room_of_checkReport {hid : Hid} {reportType : Nat}
    (h : hid.checkReport output reportType (some data) = 0) :
    hid.rxBytes + data.length ≤ rxBacklogMax := by
  unfold Hid.checkReport at h
  split at h
  · rename_i hterminal
    exact absurd h hterminal
  · split at h
    · cases h
    · dsimp only at h
      repeat' split at h
      all_goals first
        | omega
        | cases h

/-- **The second block** of a call: the report is accepted or the reservation given back. -/
theorem Flowing.enqueue (hflow : Flowing s h) (hopen : Open s)
    (hi : s.reservations[i]? = some data) (allocated : Bool) :
    Flowing { s with
      hid := (s.hid.enqueue allocated data).2, reservations := s.reservations.eraseIdx i }
      (note s (.enqueue i allocated) s h) := by
  unfold note
  dsimp only
  rw [hi]
  dsimp only
  have hnot : ¬ s.hid.terminalError ≠ 0 := fun hterminal => hterminal hopen.hid
  cases allocated with
  | true =>
    have henqueue : s.hid.enqueue true data =
        (0, { s.hid with rxQueue := s.hid.rxQueue ++ [data], rxPending := true }) := by
      unfold Hid.enqueue
      rw [if_neg hnot]
      rfl
    rw [henqueue, if_pos (show (0 : Int) = 0 from rfl)]
    exact hflow.accept hi
  | false =>
    have henqueue : s.hid.enqueue false data = (-ENOMEM, { s.hid with
        rxRecords := s.hid.rxRecords - 1, rxBytes := s.hid.rxBytes - data.length }) := by
      unfold Hid.enqueue
      rw [if_neg hnot]
      rfl
    rw [henqueue, if_neg (show ¬ -ENOMEM = 0 by decide)]
    exact hflow.refuse hi

/-- A reader kicks the work. -/
theorem Flowing.kick (hflow : Flowing s h)
    (hopen : Open s) (hstep : step output s .kick = some t) : Flowing t h := by
  unfold step at hstep
  dsimp only at hstep
  rw [if_pos (show s.session.started ∧ s.session.terminalError = 0 from
    ⟨hflow.running.1, hopen.session⟩)] at hstep
  split at hstep
  · cases hstep
  · cases hstep
    have hschedule : s.hid.scheduleRx = { s.hid with rxPending := true } := by
      unfold Hid.scheduleRx
      rw [if_pos hopen.hid]
    rw [hschedule]
    exact ⟨hflow.lossless, hflow.sessionBytes, hflow.sessionMax, hflow.inside, hflow.hidBytes,
      hflow.hidMax, hflow.copying, hflow.inHand, fun _ hrest => (by cases hrest.1), hflow.running⟩

/-- **One step** keeps what flows, until a terminal error is set. -/
theorem flowing_step {event : Event}
    (hflow : Flowing s h) (ht : Open t) (hstep : step output s event = some t) :
    Flowing t (note s event t h) := by
  have hopen := open_of_step hstep ht
  cases event with
  | setReport reportType data =>
    unfold step at hstep
    dsimp only at hstep
    split at hstep
    · rename_i hcheck
      obtain ⟨data, rfl, rfl⟩ := Option.map_eq_some_iff.mp hstep
      exact hflow.reserve (room_of_checkReport hcheck)
    · cases hstep
      exact hflow
  | enqueue i allocated =>
    obtain ⟨data, hi, rfl⟩ := Option.map_eq_some_iff.mp hstep
    exact hflow.enqueue hopen hi allocated
  | rxWork allocated => exact hflow.rxWork hopen ht hstep
  | read count =>
    unfold step at hstep
    dsimp only at hstep
    split at hstep
    · cases hstep
    · split at hstep
      · cases hstep
        exact hflow
      · rename_i len hbegin
        cases hstep
        exact hflow.readBegin hbegin
  | copied success =>
    obtain ⟨len, hreader, rfl⟩ := Option.map_eq_some_iff.mp hstep
    cases success with
    | true => exact hflow.readEnd hreader
    | false =>
      exact ⟨hflow.lossless, hflow.sessionBytes, hflow.sessionMax, hflow.inside, hflow.hidBytes,
        hflow.hidMax, fun len hlen => (by cases hlen), hflow.inHand, hflow.awake, hflow.running⟩
  | kick => exact hflow.kick hopen hstep
  | rxError error =>
    cases hstep
    unfold Session.setRxError
    rw [if_pos hopen.session]
    exact ⟨hflow.lossless, hflow.sessionBytes, hflow.sessionMax, hflow.inside, hflow.hidBytes,
      hflow.hidMax, hflow.copying, hflow.inHand, hflow.awake, hflow.running⟩
  | hidClosed reason =>
    cases hstep
    exact absurd ht.hid (terminalError_hidClosed s reason)
  | closed reason =>
    cases hstep
    exact absurd ht.session (terminalError_closed s.session reason)
  | stop =>
    unfold step at hstep
    dsimp only at hstep
    split at hstep
    · rename_i hstop
      exact absurd hopen.session hstop.1
    · cases hstep
  | stopped =>
    unfold step at hstep
    dsimp only at hstep
    split at hstep
    · rename_i hstopped
      exact absurd hstopped.1 (by simp [hflow.running.2])
    · cases hstep

/-! ## Runs -/

theorem flowing_init : Flowing {} {} where
  lossless := rfl
  sessionBytes := rfl
  sessionMax := Nat.zero_le _
  inside := fun rec hrec => by cases hrec
  hidBytes := rfl
  hidMax := Nat.zero_le _
  copying := fun len hlen => by cases hlen
  inHand := by simp
  awake := fun hne => absurd rfl hne
  running := ⟨rfl, rfl⟩

theorem flowing_run {events : List Event}
    (hrun : run (withHistory note (step output)) ({}, {}) events = some (s, h)) (hs : Open s) :
    Flowing s h := by
  refine run_invariant (fun x : State × History => Open x.1 → Flowing x.1 x.2) ?_
    (fun _ => flowing_init) hrun hs
  rintro ⟨s, h⟩ event ⟨t, h'⟩ hflow hstep ht
  obtain ⟨t, hst, heq⟩ := Option.map_eq_some_iff.mp hstep
  obtain ⟨rfl, rfl⟩ := Prod.mk.inj heq
  exact flowing_step (hflow (open_of_step hst ht)) ht hst

/-- **Receiving is lossless and does not stall.** In every state of every run without a terminal
error, what was accepted is what was read, what the session has and what it has not got yet; the
counters are the lengths and within their bound; and a queue that nobody works on has a record
before it or a reader behind it who will kick. -/
theorem rx_lossless (output : Sizes) (events : List Event) (s : State) (h : History)
    (hrun : run (withHistory note (step output)) ({}, {}) events = some (s, h))
    (hhid : s.hid.terminalError = 0) (hsession : s.session.terminalError = 0) :
    h.bytesRead ++ unread s.session.rxRecords ++ payloads (undelivered s.hid) =
        payloads h.accepted ∧
      (s.session.rxBytes = (s.session.rxRecords.map fun rec => rec.data.length).sum ∧
        s.session.rxBytes ≤ rxBacklogMax) ∧
      (s.hid.rxBytes = lengths s.hid.rxQueue + lengths s.reservations ∧
        s.hid.rxBytes ≤ rxBacklogMax) ∧
      (s.hid.rxQueue ≠ [] → s.hid.rxPending = false → s.hid.rxWork = .idle →
        s.session.rxRecords ≠ [] ∨ 0 < s.kicks) := by
  have hflow := flowing_run hrun ⟨hhid, hsession⟩
  exact ⟨hflow.lossless, ⟨hflow.sessionBytes, hflow.sessionMax⟩, ⟨hflow.hidBytes, hflow.hidMax⟩,
    fun hne hpending hidle => hflow.awake hne ⟨hpending, Or.inl hidle⟩⟩

/-- A report is delivered and still in the queue while one byte of it is read. -/
theorem rx_lossless_delivered :
    [7] ++ unread [⟨[7, 8, 0], 1⟩] ++ payloads [] = payloads [[1, 0, 7, 8, 0]] := by
  have hrun : run (withHistory note (step fun _ => 5)) ({}, {})
      [.setReport 2 (some [1, 0, 7, 8, 0]), .enqueue 0 true, .rxWork true, .rxWork true,
        .rxWork true, .read 1, .copied true] =
      some ({ hid := { rxQueue := [[1, 0, 7, 8, 0]], rxBytes := 5, rxRecords := 1
                       rxWork := .received }
              session := { rxRecords := [⟨[7, 8, 0], 1⟩], rxBytes := 3 }
              kicks := 0 },
        { accepted := [[1, 0, 7, 8, 0]], bytesRead := [7] }) := by
    decide +kernel
  exact (rx_lossless (fun _ => 5) _ _ _ hrun rfl rfl).1

end Catplay.Analysis.Iap2Usb
