import Catplay.Analysis.Link.Refinement

/-!
# The packets a reception processes

In the data phase `read` hands packets to `process_ack_payload`: the packet that was read,
if it carries the number that is due, and after it the buffered packets up to the first
gap. `processed` lists them. The loop over the buffer is a fold over this list, after which
the buffer and the number of the peer are put in place (`drainOutOfOrder_eq`). Processing
fails on one kind of packet only, a file transfer with the id 255 (`processAckPayload_none`).
-/

set_option autoImplicit false

namespace Catplay.Analysis.Link

open Catplay.Library Catplay.Model.Link

/-! ## The buffered packets -/

/-- The packets buffered from the number `next` on, up to the first gap. -/
def bufferedFrom : Nat → ByteMap Packet → ModSeq8 → List Packet
  | 0, _, _ => []
  | fuel + 1, buffer, next =>
    match buffer next with
    | none => []
    | some q => q :: bufferedFrom fuel (buffer.remove next) (next + 1)

/-- The buffer without these packets. -/
def drained : Nat → ByteMap Packet → ModSeq8 → ByteMap Packet
  | 0, buffer, _ => buffer
  | fuel + 1, buffer, next =>
    match buffer next with
    | none => buffer
    | some _ => drained fuel (buffer.remove next) (next + 1)

/-- The packets that the reception of `p` processes in the data phase. -/
def processed (l : LinkLayer) (p : Packet) : List Packet :=
  match l.peerSeq with
  | none => []
  | some peerSeq =>
    if p.header.control.isAck = true ∧ p.payload.isSome = true ∧ p.header.seq = peerSeq + 1 then
      p :: bufferedFrom 256 l.outOfOrder (p.header.seq + 1)
    else []

/-- The reception of `p` puts it into the buffer. -/
def Buffers (l : LinkLayer) (p : Packet) : Prop :=
  p.header.control.isAck = true ∧ p.payload.isSome = true ∧
    ∃ peerSeq, l.peerSeq = some peerSeq ∧
      ModSeq8.partialCmp p.header.seq (peerSeq + 1) = some .gt

instance decidableBuffers (l : LinkLayer) (p : Packet) : Decidable (Buffers l p) :=
  match h : l.peerSeq with
  | none => .isFalse fun hbuffers => by
    obtain ⟨-, -, peerSeq, hpeer, -⟩ := hbuffers
    rw [h] at hpeer
    cases hpeer
  | some peerSeq =>
    decidable_of_iff (p.header.control.isAck = true ∧ p.payload.isSome = true ∧
        ModSeq8.partialCmp p.header.seq (peerSeq + 1) = some .gt)
      (by simp [Buffers, h])

/-- Where packets are processed the one that was read is due, and comes first. -/
theorem processed_ne_nil {l : LinkLayer} {p : Packet} (h : processed l p ≠ []) :
    ∃ peerSeq, l.peerSeq = some peerSeq ∧ p.header.seq = peerSeq + 1 ∧
      processed l p = p :: bufferedFrom 256 l.outOfOrder (p.header.seq + 1) := by
  unfold processed at h ⊢
  cases hpeer : l.peerSeq with
  | none => simp [hpeer] at h
  | some peerSeq =>
    simp only [hpeer] at h ⊢
    split
    · rename_i hdue
      exact ⟨peerSeq, rfl, hdue.2.2, rfl⟩
    · rename_i hnot
      rw [if_neg hnot] at h
      exact absurd rfl h

/-! ## Processing one packet -/

/-- Processing depends neither on the buffer nor on the number of the peer. -/
theorem processAckPayload_update (l : LinkLayer) (q : Packet) (outOfOrder : ByteMap Packet)
    (peerSeq : Option ModSeq8) :
    ({ l with outOfOrder, peerSeq } : LinkLayer).processAckPayload q =
      (l.processAckPayload q).map fun l' => { l' with outOfOrder, peerSeq } := by
  unfold LinkLayer.processAckPayload
  dsimp only
  cases l.peerLsp.sessions.find? fun s => s.id = q.header.sessionId with
  | none => rfl
  | some session =>
    dsimp only
    cases session.sessionType with
    | externalAccessory => rfl
    | control =>
      rcases q.payload with _ | _ | ⟨b, payload⟩ <;> rfl
    | fileTransfer =>
      dsimp only
      cases l.files.enqueueRx q.payload with
      | none => rfl
      | some files => rfl

/-- A file transfer with the one id that has no slot. -/
def Crashes (lsp : LSPPayload) (q : Packet) : Prop :=
  ∃ session f, lsp.sessions.find? (fun s => s.id = q.header.sessionId) = some session ∧
    session.sessionType = .fileTransfer ∧
    FileTransferPayload.fromPayload q.payload = some f ∧ f.fileId = 255

theorem feed_eq_none {tx : FileTransferTransmitter} {f : FileTransferPayload} :
    tx.feed f = none ↔ f.fileId = 255 := by
  unfold FileTransferTransmitter.feed
  constructor
  · intro h
    by_contra hid
    rw [if_neg hid] at h
    split at h
    · cases h
    · split at h
      · split at h <;> cases h
      · split at h <;> cases h
  · intro hid
    rw [if_pos hid]

theorem enqueueRx_eq_none {files : FileSession} {payload : Option Bytes} :
    files.enqueueRx payload = none ↔
      ∃ f, FileTransferPayload.fromPayload payload = some f ∧ f.fileId = 255 := by
  unfold FileSession.enqueueRx
  cases hfrom : FileTransferPayload.fromPayload payload with
  | none => simp
  | some f =>
    dsimp only
    simp only [Option.bind_eq_bind, Option.bind_eq_none_iff, Option.some.injEq, exists_eq_left']
    constructor
    · intro h
      by_contra hid
      cases hfeed : ({ files with rx := (files.rx.feed f).1 }.queueResults f.fileId
          (files.rx.feed f).2.1 (files.rx.feed f).2.2).tx.feed f with
      | none => exact hid (feed_eq_none.mp hfeed)
      | some fed => cases h fed hfeed
    · intro hid fed hfed
      rw [feed_eq_none.mpr hid] at hfed
      cases hfed

/-- **Processing fails** on a file transfer with the id 255, and on nothing else. -/
theorem processAckPayload_none {l : LinkLayer} {q : Packet} :
    l.processAckPayload q = none ↔ Crashes l.peerLsp q := by
  unfold LinkLayer.processAckPayload Crashes
  cases hfind : l.peerLsp.sessions.find? fun s => s.id = q.header.sessionId with
  | none => simp
  | some session =>
    dsimp only
    cases htype : session.sessionType with
    | externalAccessory => simp [htype]
    | control =>
      rcases q.payload with _ | _ | ⟨b, payload⟩ <;> simp [htype]
    | fileTransfer =>
      dsimp only
      constructor
      · intro h
        refine ⟨session, ?_⟩
        have hnone : l.files.enqueueRx q.payload = none := by
          by_contra hsome
          obtain ⟨files, hfiles⟩ := Option.ne_none_iff_exists'.mp hsome
          rw [hfiles] at h
          cases h
        obtain ⟨f, hf, hid⟩ := enqueueRx_eq_none.mp hnone
        exact ⟨f, rfl, htype, hf, hid⟩
      · rintro ⟨_, f, -, -, hf, hid⟩
        rw [enqueueRx_eq_none.mpr ⟨f, hf, hid⟩]
        rfl

/-! ## Processing the buffer -/

/-- The number of the last packet processed, if any was. -/
def lastSeq (peerSeq : Option ModSeq8) : List Packet → ModSeq8 → Option ModSeq8
  | [], _ => peerSeq
  | _ :: qs, next => lastSeq (some next) qs (next + 1)

theorem processAll_update (qs : List Packet) (l : LinkLayer) (outOfOrder : ByteMap Packet)
    (peerSeq : Option ModSeq8) :
    qs.foldlM LinkLayer.processAckPayload { l with outOfOrder, peerSeq } =
      (qs.foldlM LinkLayer.processAckPayload l).map fun l' => { l' with outOfOrder, peerSeq } := by
  induction qs generalizing l with
  | nil => rfl
  | cons q qs ih =>
    rw [List.foldlM_cons, List.foldlM_cons, processAckPayload_update]
    cases l.processAckPayload q with
    | none => rfl
    | some l₁ => exact ih l₁

/-- **The loop over the buffer** is a fold over the packets in it. -/
theorem drainOutOfOrder_eq (fuel : Nat) (l : LinkLayer) (next : ModSeq8) :
    LinkLayer.drainOutOfOrder fuel l next =
      ((bufferedFrom fuel l.outOfOrder next).foldlM LinkLayer.processAckPayload l).map
        fun l' => { l' with
          outOfOrder := drained fuel l.outOfOrder next
          peerSeq := lastSeq l.peerSeq (bufferedFrom fuel l.outOfOrder next) next } := by
  induction fuel generalizing l next with
  | zero => rfl
  | succ fuel ih =>
    unfold LinkLayer.drainOutOfOrder bufferedFrom drained
    cases hnext : l.outOfOrder next with
    | none => rfl
    | some q =>
      dsimp only
      have hupdate : LinkLayer.processAckPayload
          { l with outOfOrder := l.outOfOrder.remove next } q =
            (l.processAckPayload q).map fun l' =>
              { l' with outOfOrder := l.outOfOrder.remove next, peerSeq := l.peerSeq } :=
        processAckPayload_update l q (l.outOfOrder.remove next) l.peerSeq
      rw [hupdate, List.foldlM_cons]
      cases l.processAckPayload q with
      | none => rfl
      | some l₁ =>
        have hrest := ih { l₁ with
          outOfOrder := l.outOfOrder.remove next, peerSeq := some next } (next + 1)
        rw [processAll_update, Option.map_map] at hrest
        exact hrest

/-- Processing several packets fails on the first that crashes. -/
theorem processAll_none {qs : List Packet} {l : LinkLayer} :
    qs.foldlM LinkLayer.processAckPayload l = none ↔ ∃ q ∈ qs, Crashes l.peerLsp q := by
  induction qs generalizing l with
  | nil => simp
  | cons q qs ih =>
    rw [List.foldlM_cons]
    cases hprocess : l.processAckPayload q with
    | none =>
      have hcrash := processAckPayload_none.mp hprocess
      simp [hcrash]
    | some l₁ =>
      have hnot : ¬ Crashes l.peerLsp q := by
        intro hcrash
        rw [processAckPayload_none.mpr hcrash] at hprocess
        cases hprocess
      have hlsp : l₁.peerLsp = l.peerLsp :=
        congrArg Core.peerLsp (processAckPayload_spec hprocess).1
      have hrest := ih (l := l₁)
      rw [hlsp] at hrest
      simp only [Option.bind_eq_bind, Option.bind_some, List.mem_cons, exists_eq_or_imp, hnot,
        false_or]
      exact hrest

/-! ## The data part of a reception -/

/-- An EAK changes neither the buffer nor what is processed. -/
theorem readEak_frame (l : LinkLayer) (p : Packet) :
    (l.readEak p).peerSeq = l.peerSeq ∧ (l.readEak p).outOfOrder = l.outOfOrder ∧
      (l.readEak p).peerLsp = l.peerLsp := by
  have hcore := (readEak_spec l p).1
  exact ⟨congrArg Core.peerSeq hcore, congrArg Core.outOfOrder hcore,
    congrArg Core.peerLsp hcore⟩

/-- **What the reception processes.** The packets listed are processed one after the other;
the number of the peer goes along, and the buffer loses what was in it. -/
theorem readData_processed {l : LinkLayer} {p : Packet} (h : processed l p ≠ []) :
    l.readData p =
      ((processed l p).foldlM LinkLayer.processAckPayload (l.readEak p)).map fun l' => { l' with
        outOfOrder := drained 256 l.outOfOrder (p.header.seq + 1)
        peerSeq := lastSeq l.peerSeq (processed l p) p.header.seq } := by
  obtain ⟨hpeer', hbuffer, -⟩ := readEak_frame l p
  unfold processed at h ⊢
  cases hpeer : l.peerSeq with
  | none => simp [hpeer] at h
  | some peerSeq =>
    simp only [hpeer] at h ⊢
    by_cases hdue : p.header.control.isAck = true ∧ p.payload.isSome = true ∧
        p.header.seq = peerSeq + 1
    · obtain ⟨hctl, hpayload, hseq⟩ := hdue
      rw [if_pos ⟨hctl, hpayload, hseq⟩, List.foldlM_cons]
      have hguard : ¬ (¬ p.header.control.isAck = true ∨ p.payload.isNone = true) := by
        simp [hctl, Option.isSome_iff_ne_none.mp hpayload]
      have hcmp : ModSeq8.partialCmp p.header.seq (peerSeq + 1) = some .eq :=
        partialCmp_eq_iff.mpr hseq
      unfold LinkLayer.readData
      dsimp only
      rw [hpeer', hpeer]
      dsimp only
      rw [if_neg hguard, hcmp]
      dsimp only
      cases hprocess : (l.readEak p).processAckPayload p with
      | none => rfl
      | some l₁ =>
        have hkept : l₁.outOfOrder = l.outOfOrder :=
          (congrArg Core.outOfOrder (processAckPayload_spec hprocess).1).trans hbuffer
        simp only [Option.bind_eq_bind, Option.bind_some, lastSeq]
        rw [drainOutOfOrder_eq]
        dsimp only
        rw [hkept]
        rw [processAll_update, Option.map_map]
        rfl
    · rw [if_neg hdue] at h
      exact absurd rfl h

/-- A packet that is not processed is buffered, or asks for an ACK, or is ignored. -/
theorem readData_unprocessed {l : LinkLayer} {p : Packet} (h : processed l p = []) :
    ∃ pendingAck, l.readData p = some { l.readEak p with
      outOfOrder := if Buffers l p then l.outOfOrder.insert p.header.seq p else l.outOfOrder
      pendingAck } := by
  obtain ⟨hpeer', hbuffer, -⟩ := readEak_frame l p
  have hbuffers : Buffers l p ↔ p.header.control.isAck = true ∧ p.payload.isSome = true ∧
      ∃ peerSeq, (l.readEak p).peerSeq = some peerSeq ∧
        ModSeq8.partialCmp p.header.seq (peerSeq + 1) = some .gt := by
    rw [hpeer']
    exact Iff.rfl
  rw [← hbuffer]
  unfold LinkLayer.readData
  dsimp only
  split
  · rename_i hpeer
    rw [if_neg]
    · exact ⟨(l.readEak p).pendingAck, rfl⟩
    · intro hbad
      obtain ⟨-, -, peerSeq, hknown, -⟩ := hbuffers.mp hbad
      rw [hpeer] at hknown
      cases hknown
  · rename_i peerSeq hpeer
    have hcmp : Buffers l p ↔ p.header.control.isAck = true ∧ p.payload.isSome = true ∧
        ModSeq8.partialCmp p.header.seq (peerSeq + 1) = some .gt := by
      rw [hbuffers, hpeer]
      simp
    split
    · rename_i hguard
      rw [if_neg]
      · exact ⟨(l.readEak p).pendingAck, rfl⟩
      · intro hbad
        obtain ⟨hctl, hpayload, -⟩ := hcmp.mp hbad
        rcases hguard with hguard | hguard
        · exact hguard hctl
        · rw [Option.isNone_iff_eq_none] at hguard
          rw [hguard] at hpayload
          cases hpayload
    · rename_i hguard
      simp only [not_or, not_not, Option.isNone_iff_eq_none] at hguard
      have hpayload : p.payload.isSome = true := Option.isSome_iff_ne_none.mpr hguard.2
      split
      · rename_i hdue
        have hseq := partialCmp_eq_iff.mp hdue
        have hknown : l.peerSeq = some peerSeq := hpeer'.symm.trans hpeer
        unfold processed at h
        rw [hknown] at h
        dsimp only at h
        rw [if_pos ⟨hguard.1, hpayload, hseq⟩] at h
        cases h
      · rename_i hgt
        rw [if_pos (hcmp.mpr ⟨hguard.1, hpayload, hgt⟩)]
        exact ⟨(l.readEak p).pendingAck.addOutOfOrderSeq p.header.seq, rfl⟩
      · rename_i hlt
        rw [if_neg]
        · exact ⟨{ (l.readEak p).pendingAck with force := true }, rfl⟩
        · intro hbad
          rw [(hcmp.mp hbad).2.2] at hlt
          cases hlt
      · rename_i hhalf
        rw [if_neg]
        · exact ⟨(l.readEak p).pendingAck, rfl⟩
        · intro hbad
          rw [(hcmp.mp hbad).2.2] at hhalf
          cases hhalf

/-- The data part of a reception fails where one of the packets it processes crashes. -/
theorem readData_none {l : LinkLayer} {p : Packet} :
    l.readData p = none ↔ ∃ q ∈ processed l p, Crashes l.peerLsp q := by
  cases hprocessed : processed l p with
  | nil =>
    obtain ⟨pendingAck, hread⟩ := readData_unprocessed hprocessed
    simp [hread]
  | cons q qs =>
    have hsome : processed l p ≠ [] := by
      rw [hprocessed]
      simp
    rw [readData_processed hsome, Option.map_eq_none_iff, processAll_none, hprocessed,
      (readEak_frame l p).2.2]

/-! ## The reception of a packet -/

/-- An acknowledgement changes neither what is processed nor the phase. -/
theorem readAck_frame (l : LinkLayer) (p : Packet) :
    (l.readAck p).peerSeq = l.peerSeq ∧ (l.readAck p).outOfOrder = l.outOfOrder ∧
      (l.readAck p).peerLsp = l.peerLsp ∧ phaseOf (l.readAck p).status = phaseOf l.status := by
  have hcore := (readAck_spec l p).1
  have hpeer := congrArg Core.peerSeq hcore
  have hbuffer := congrArg Core.outOfOrder hcore
  have hlsp := congrArg Core.peerLsp hcore
  have hphase := congrArg Core.phase hcore
  rw [Core.receiveAck_peerSeq] at hpeer
  rw [Core.receiveAck_outOfOrder] at hbuffer
  rw [Core.receiveAck_peerLsp] at hlsp
  rw [Core.receiveAck_phase] at hphase
  exact ⟨hpeer, hbuffer, hlsp, hphase⟩

theorem isData_readAck (l : LinkLayer) (p : Packet) :
    (l.readAck p).status.isData = l.status.isData := by
  have hphase := (readAck_frame l p).2.2.2
  rw [Bool.eq_iff_iff, ← phaseOf_eq_data, ← phaseOf_eq_data, hphase]

/-- A packet that is too long ends the link. -/
theorem readPacket_of_long {l : LinkLayer} {p : Packet} (hdata : l.status.isData = true)
    (hsize : ¬ p.size ≤ l.localLsp.maxLen.toNat) :
    l.readPacket p = some (l.enterErrorState
      (.recvMaxLenViolation p.size l.localLsp.maxLen.toNat)) := by
  have hnotDowngrade : ¬ l.isDowngrade = true := by
    intro h
    rw [LinkLayer.isDowngrade, decide_eq_true_eq] at h
    rw [h] at hdata
    cases hdata
  unfold LinkLayer.readPacket
  rw [if_neg hnotDowngrade, if_pos (Nat.lt_of_not_le hsize)]

/-- In the data phase a packet is read for its acknowledgement, then for its data. -/
theorem readPacket_of_data {l : LinkLayer} {p : Packet} (hdata : l.status.isData = true)
    (hsize : p.size ≤ l.localLsp.maxLen.toNat) :
    l.readPacket p =
      if l.server = false ∧ p.header.control.isRst = true then some (l.enterErrorState .reset)
      else (l.readAck p).readData p := by
  have hnotDowngrade : ¬ l.isDowngrade = true := by
    intro h
    rw [LinkLayer.isDowngrade, decide_eq_true_eq] at h
    rw [h] at hdata
    cases hdata
  have hawake : ¬ (l.server && decide (l.status = .detecting)) = true := by
    intro h
    rw [Bool.and_eq_true, decide_eq_true_eq] at h
    rw [h.2] at hdata
    cases hdata
  have hnotNegotiating : ¬ (l.readAck p).status = .negotiating := by
    intro h
    have hdata' := (isData_readAck l p).trans hdata
    rw [h] at hdata'
    cases hdata'
  unfold LinkLayer.readPacket
  rw [if_neg hnotDowngrade, if_neg (Nat.not_lt.mpr hsize)]
  dsimp only
  rw [if_neg hawake]
  have hreset : (!l.server && p.header.control.isRst) = true ↔
      l.server = false ∧ p.header.control.isRst = true := by
    simp
  simp only [hreset, hnotNegotiating, if_false, (isData_readAck l p).trans hdata, if_true]

/-- Outside of the data phase a reception cannot fail. -/
theorem readPacket_isSome {l : LinkLayer} {p : Packet} (hdata : l.status.isData = false) :
    (l.readPacket p).isSome = true := by
  unfold LinkLayer.readPacket
  split
  · rfl
  · split
    · rfl
    · dsimp only
      have hnotData : ∀ l₁ : LinkLayer, l₁ = (if l.server && l.status = .detecting then
          l.changeState .negotiating else l) → l₁.status.isData = false := by
        rintro l₁ rfl
        split
        · rfl
        · exact hdata
      generalize (if (l.server && decide (l.status = .detecting)) = true then
        l.changeState .negotiating else l) = l₁ at hnotData
      have hstill := hnotData l₁ rfl
      split
      · rfl
      · split
        · rfl
        · rw [if_neg]
          · rfl
          · rw [isData_readAck, hstill]
            simp

end Catplay.Analysis.Link
