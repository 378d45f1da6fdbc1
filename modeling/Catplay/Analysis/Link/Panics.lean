import Catplay.Analysis.Link.Payloads
import Catplay.Analysis.Link.Processing

/-!
# Which packets and payloads stop the program

Every step of a link is taken apart into the few places at which it can panic: the slot of
a file transfer with the id 255, the session for a payload that is sent, and the 16-bit
length of a packet. `ReadSafe` and `TransmitSafe` say that none of them is met, and they
are exact (`readPacket_isSome_iff`, `nextTransmit_isSome_iff`). A run of a link meets no
panic exactly when all its steps are safe (`link_survives`).
-/

set_option autoImplicit false

namespace Catplay.Analysis.Link

open Catplay.Library.Run Catplay.Model.Link

/-! ## Reading -/

/-- The packets that the reception of `p` processes have a slot. -/
def ReadSafe (l : LinkLayer) (p : Packet) : Prop :=
  l.status.isData = true → p.size ≤ l.localLsp.maxLen.toNat →
    ∀ q ∈ processed l p, ¬ Crashes l.peerLsp q

/-- **Reading a packet** succeeds exactly when it is safe. -/
theorem readPacket_isSome_iff {l : LinkLayer} {p : Packet} :
    (l.readPacket p).isSome = true ↔ ReadSafe l p := by
  rcases Bool.eq_false_or_eq_true l.status.isData with hdata | hdata
  · by_cases hsize : p.size ≤ l.localLsp.maxLen.toNat
    · rw [readPacket_of_data hdata hsize]
      have hexact : ReadSafe l p ↔ ∀ q ∈ processed l p, ¬ Crashes l.peerLsp q := by
        simp [ReadSafe, hdata, hsize]
      rw [hexact]
      obtain ⟨hpeer, hbuffer, hlsp, -⟩ := readAck_frame l p
      have hsame : processed (l.readAck p) p = processed l p := by
        unfold processed
        rw [hpeer, hbuffer]
      split
      · rename_i hreset
        -- a reset is no ACK, so nothing is processed
        have hnone : processed l p = [] := by
          have hctl : ¬ p.header.control.isAck = true := by
            intro hack
            have hbits := isAck_iff.mp hack
            rw [hbits] at hreset
            exact absurd hreset.2 (by decide)
          unfold processed
          split
          · rfl
          · rw [if_neg fun h => hctl h.1]
        simp [hnone]
      · rw [Option.isSome_iff_ne_none, ne_eq, readData_none, hsame, hlsp]
        simp
    · rw [readPacket_of_long hdata hsize]
      simp [ReadSafe, hsize]
  · simp [ReadSafe, hdata, readPacket_isSome hdata]

/-- Frames other than packets never stop the program. -/
theorem read_isSome_iff {l : LinkLayer} {frame : PacketOrDetect} :
    (l.read frame).isSome = true ↔ ∀ p, frame = .packet p → ReadSafe l p := by
  unfold LinkLayer.read
  cases frame with
  | detect =>
    split <;> simp
  | legacy body =>
    split <;> simp
  | packet p =>
    simp only [PacketOrDetect.packet.injEq, forall_eq']
    split
    · rename_i herror
      have hdata : l.status.isData = false := by
        unfold LinkLayer.isError at herror
        split at herror
        · rename_i hstatus
          rw [hstatus]
          rfl
        · cases herror
      simp [ReadSafe, hdata]
    · exact readPacket_isSome_iff

/-! ## Transmitting -/

/-- `next_transmit` puts the LSP on record into a SYN+ACK, or into the first SYN. -/
structure SendsOffer (l : LinkLayer) : Prop where
  negotiating : l.status = .negotiating
  noLegacy : l.lingo.queueTx = []
  due : (l.negotiation.phase = .offering true ∧ l.peerSeq.isSome = true) ∨
    (¬ ((l.negotiation.phase = .offering true ∨ l.negotiation.phase = .accepting true) ∧
        l.peerSeq.isSome = true) ∧ l.server = false ∧ l.synTransmitted = none)

/-- Nothing that `next_transmit` is about to build breaks a limit. -/
structure TransmitSafe (l : LinkLayer) : Prop where
  offer : SendsOffer l → l.negotiation.localLsp.toBytes.length ≤ 65525
  payload : ∀ sessionType payload, Dequeues l sessionType payload → l.status = .writable →
    l.peerSeq.isSome = true →
      (l.findSessionOfType sessionType).isSome = true ∧ payload.length ≤ 65525

theorem fixLength_isSome {p : Packet} :
    p.fixLength.isSome = true ↔ ∀ payload, p.payload = some payload → payload.length ≤ 65525 := by
  unfold Packet.fixLength
  cases p.payload with
  | none => simp
  | some payload =>
    dsimp only
    split
    · rename_i hlong
      simp
      omega
    · rename_i hshort
      simp
      omega

theorem newAck_none_isSome (ownSeq peerSeq : ModSeq8) (sessionId : UInt8) :
    (Packet.newAck ownSeq peerSeq sessionId none).isSome = true := by
  unfold Packet.newAck
  rw [fixLength_isSome]
  intro payload h
  cases h

/-- An empty ACK can always be built. -/
theorem transmitEmptyAck_isSome (l : LinkLayer) : l.transmitEmptyAck.isSome = true := by
  unfold LinkLayer.transmitEmptyAck
  split
  · split
    · rfl
    · rename_i peerSeq _
      obtain ⟨p, hp⟩ := Option.isSome_iff_exists.mp
        (newAck_none_isSome (l.ownSeq - 1) peerSeq LSPPayload.sessionIdControl)
      rw [hp]
      rfl
  · rfl

/-- A payload can be put into a packet when the number of the peer is missing, or when there is
a session for it and it is short enough. -/
theorem transmitPayload_isSome {l : LinkLayer} {sessionType : SessionType} {payload : Bytes} :
    (l.transmitPayload sessionType payload).isSome = true ↔
      (l.peerSeq.isSome = true →
        (l.findSessionOfType sessionType).isSome = true ∧ payload.length ≤ 65525) := by
  unfold LinkLayer.transmitPayload
  cases hpeer : l.peerSeq with
  | none => simp
  | some peerSeq =>
    dsimp only
    cases hsession : l.findSessionOfType sessionType with
    | none => simp
    | some session =>
      have hlength := newAck_isSome l.ownSeq peerSeq session payload
      cases hp : Packet.newAck l.ownSeq peerSeq session (some payload) with
      | none =>
        rw [hp] at hlength
        simp only [Option.bind_eq_bind, Option.bind_some, hp, Option.bind_none]
        simpa using hlength
      | some p =>
        rw [hp] at hlength
        have hshort : payload.length ≤ 65525 := by simpa using hlength
        simp only [Option.bind_eq_bind, Option.bind_some, hp, hshort]
        split <;> simp

/-- The data phase takes its step exactly when the payload it takes can be put into a packet. -/
theorem transmitData_isSome {l : LinkLayer} :
    l.transmitData.isSome = true ↔
      ∀ taken, l.nextPayload.2 = some taken → l.nextRetransmitSeq = none →
        l.isWindowWritable = true → l.status = .writable → l.peerSeq.isSome = true →
          (l.findSessionOfType taken.1).isSome = true ∧ taken.2.length ≤ 65525 := by
  rw [transmitData_eq]
  cases l.nextRetransmitSeq with
  | some seq => simp
  | none =>
    dsimp only
    split
    · rename_i hopen
      cases hnext : l.nextPayload.2 with
      | none => simp [transmitEmptyAck_isSome]
      | some taken =>
        have hfound : (afterDequeue l).findSessionOfType taken.1 = l.findSessionOfType taken.1 := by
          simp [LinkLayer.findSessionOfType]
        dsimp only
        rw [transmitPayload_isSome, hfound, peerSeq_afterDequeue]
        simp [hopen.1, hopen.2]
    · rename_i hclosed
      simp only [transmitEmptyAck_isSome, true_iff]
      exact fun _ _ _ hwindow hwritable _ => absurd ⟨hwindow, hwritable⟩ hclosed

theorem newSynAck_isSome (ownSeq peerSeq : ModSeq8) (lsp : LSPPayload) :
    (Packet.newSynAck ownSeq peerSeq lsp).isSome = true ↔ lsp.toBytes.length ≤ 65525 := by
  unfold Packet.newSynAck
  rw [fixLength_isSome]
  simp

theorem newSyn_isSome (ownSeq : ModSeq8) (lsp : LSPPayload) :
    (Packet.newSyn ownSeq lsp).isSome = true ↔ lsp.toBytes.length ≤ 65525 := by
  unfold Packet.newSyn
  rw [fixLength_isSome]
  simp

/-- What the pending answer gives. -/
theorem takePending_cases (l : LinkLayer) :
    (l.negotiation.phase = .offering true ∧ l.peerSeq.isSome = true ∧
        (l.takePendingNegotiationTransmit.isSome = true ↔
          l.negotiation.localLsp.toBytes.length ≤ 65525) ∧
        ∀ l' next, l.takePendingNegotiationTransmit = some (l', next) → next.isSome = true) ∨
      (l.negotiation.phase = .accepting true ∧ l.peerSeq.isSome = true ∧
        ∃ l' next, l.takePendingNegotiationTransmit = some (l', some next)) ∨
      (¬ ((l.negotiation.phase = .offering true ∨ l.negotiation.phase = .accepting true) ∧
          l.peerSeq.isSome = true) ∧
        l.takePendingNegotiationTransmit =
          some ({ l with negotiation := l.negotiation.takePendingTx.1 }, none)) := by
  unfold LinkLayer.takePendingNegotiationTransmit
  dsimp only
  obtain htaken | ⟨hphase, htaken⟩ | ⟨hphase, htaken⟩ := takePendingTx_cases l.negotiation
  · refine Or.inr (Or.inr ⟨?_, ?_⟩)
    · rintro ⟨hphase | hphase, -⟩ <;> simp [Negotiation.takePendingTx, hphase] at htaken
    · rw [htaken]
  · cases hpeer : l.peerSeq with
    | none =>
      refine Or.inr (Or.inr ⟨by simp, ?_⟩)
      rw [htaken]
    | some peerSeq =>
      refine Or.inl ⟨hphase, rfl, ?_, ?_⟩
      · rw [htaken, ← newSynAck_isSome l.ownSeq peerSeq]
        dsimp only
        cases Packet.newSynAck l.ownSeq peerSeq l.negotiation.localLsp <;> rfl
      · intro l' next h
        rw [htaken] at h
        obtain ⟨p, -, h⟩ := Option.bind_eq_some_iff.mp h
        obtain ⟨-, rfl⟩ := Prod.mk.inj (Option.some.inj h)
        rfl
  · cases hpeer : l.peerSeq with
    | none =>
      refine Or.inr (Or.inr ⟨by simp, ?_⟩)
      rw [htaken]
    | some peerSeq =>
      refine Or.inr (Or.inl ⟨hphase, rfl, ?_⟩)
      obtain ⟨p, hp⟩ := Option.isSome_iff_exists.mp
        (newAck_none_isSome (l.ownSeq - 1) peerSeq LSPPayload.sessionIdControl)
      rw [htaken]
      dsimp only
      rw [hp]
      exact ⟨_, _, rfl⟩

/-- The negotiation takes its step exactly when the LSP it puts into a packet is short enough. -/
theorem transmitNegotiating_isSome {l : LinkLayer} :
    l.transmitNegotiating.isSome = true ↔
      ((l.negotiation.phase = .offering true ∧ l.peerSeq.isSome = true) ∨
        (¬ ((l.negotiation.phase = .offering true ∨ l.negotiation.phase = .accepting true) ∧
            l.peerSeq.isSome = true) ∧ l.server = false ∧ l.synTransmitted = none) →
        l.negotiation.localLsp.toBytes.length ≤ 65525) := by
  unfold LinkLayer.transmitNegotiating
  obtain ⟨hphase, hpeer, hsome, hnext⟩ | ⟨hphase, hpeer, l', next, htaken⟩ | ⟨hnot, htaken⟩ :=
    takePending_cases l
  · have hgoal : (((l.negotiation.phase = .offering true ∧ l.peerSeq.isSome = true) ∨
        (¬ ((l.negotiation.phase = .offering true ∨ l.negotiation.phase = .accepting true) ∧
            l.peerSeq.isSome = true) ∧ l.server = false ∧ l.synTransmitted = none) →
        l.negotiation.localLsp.toBytes.length ≤ 65525)) ↔
          l.negotiation.localLsp.toBytes.length ≤ 65525 :=
      ⟨fun h => h (Or.inl ⟨hphase, hpeer⟩), fun h _ => h⟩
    rw [hgoal, ← hsome]
    cases htaken : l.takePendingNegotiationTransmit with
    | none => simp
    | some taken =>
      obtain ⟨l', next⟩ := taken
      obtain ⟨frame, rfl⟩ := Option.isSome_iff_exists.mp (hnext l' next htaken)
      simp
  · rw [htaken]
    simp [hphase, hpeer]
  · rw [htaken]
    have hoffer : ¬ (l.negotiation.phase = .offering true ∧ l.peerSeq.isSome = true) :=
      fun h => hnot ⟨Or.inl h.1, h.2⟩
    have hlsp : l.negotiation.takePendingTx.1.localLsp = l.negotiation.localLsp := by
      obtain htx | ⟨-, htx⟩ | ⟨-, htx⟩ := takePendingTx_cases l.negotiation <;> rw [htx] <;> rfl
    simp only [Option.bind_eq_bind, Option.bind_some, hoffer, hnot, not_false_eq_true, true_and,
      false_or]
    by_cases hsyn : l.server = false ∧ l.synTransmitted = none
    · have hcond : (!l.server && l.synTransmitted.isNone) = true := by simp [hsyn.1, hsyn.2]
      rw [if_pos hcond, ← newSyn_isSome l.ownSeq, hlsp]
      cases Packet.newSyn l.ownSeq l.negotiation.localLsp <;> simp [hsyn.1, hsyn.2]
    · have hcond : ¬ (!l.server && l.synTransmitted.isNone) = true := by
        intro h
        rw [Bool.and_eq_true, Bool.not_eq_true', Option.isNone_iff_eq_none] at h
        exact hsyn h
      rw [if_neg hcond]
      refine ⟨fun _ h => absurd h hsyn, fun _ => ?_⟩
      split <;> rfl

/-- **Transmitting** succeeds exactly when it is safe. -/
theorem nextTransmit_isSome_iff {l : LinkLayer} :
    l.nextTransmit.isSome = true ↔ TransmitSafe l := by
  rcases Bool.eq_false_or_eq_true l.isError with herror | herror
  · rw [nextTransmit_of_error herror]
    refine ⟨fun _ => ⟨?_, ?_⟩, fun _ => rfl⟩
    · intro hoffers
      simp [LinkLayer.isError, hoffers.negotiating] at herror
    · intro _ _ htaken
      rw [htaken.running] at herror
      cases herror
  · cases hlingo : l.lingo.queueTx with
    | cons body rest =>
      rw [nextTransmit_of_lingo herror hlingo]
      refine ⟨fun _ => ⟨?_, ?_⟩, fun _ => rfl⟩
      · intro hoffers
        rw [hoffers.noLegacy] at hlingo
        cases hlingo
      · intro _ _ htaken
        rw [htaken.noLegacy] at hlingo
        cases hlingo
    | nil =>
      by_cases hdown : l.status = .downgrade
      · rw [nextTransmit_of_downgrade hdown hlingo]
        refine ⟨fun _ => ⟨?_, ?_⟩, fun _ => rfl⟩
        · intro hoffers
          rw [hoffers.negotiating] at hdown
          cases hdown
        · intro _ _ _ hwritable
          rw [hwritable] at hdown
          cases hdown
      · rw [nextTransmit_of_iap2 herror hdown hlingo]
        unfold LinkLayer.nextIap2Transmit
        split
        · rename_i hstatus
          refine ⟨fun _ => ⟨?_, ?_⟩, fun _ => rfl⟩
          · intro hoffers
            rw [hoffers.negotiating] at hstatus
            cases hstatus
          · intro _ _ _ hwritable
            rw [hwritable] at hstatus
            cases hstatus
        · split
          · rename_i hstatus
            rw [transmitNegotiating_isSome]
            constructor
            · intro h
              refine ⟨fun hoffers => h hoffers.due, ?_⟩
              intro _ _ _ hwritable
              rw [hwritable] at hstatus
              cases hstatus
            · intro h hdue
              exact h.offer ⟨hstatus, hlingo, hdue⟩
          · rename_i hnegotiating
            split
            · rw [transmitData_isSome]
              constructor
              · intro h
                refine ⟨fun hoffers => absurd hoffers.negotiating hnegotiating, ?_⟩
                intro sessionType payload htaken hwritable hpeer
                rcases htaken.turn with hbad | ⟨-, hwindow, hnone⟩
                · exact absurd hbad hdown
                · exact h (sessionType, payload) htaken.next hnone hwindow hwritable hpeer
              · intro h taken hnext hnone hwindow hwritable hpeer
                exact h.payload taken.1 taken.2
                  ⟨herror, hlingo, hnext, Or.inr ⟨hwritable, hwindow, hnone⟩⟩ hwritable hpeer
            · rename_i hnotData
              refine ⟨fun _ => ⟨fun hoffers => absurd hoffers.negotiating hnegotiating, ?_⟩,
                fun _ => rfl⟩
              intro _ _ _ hwritable
              rw [hwritable] at hnotData
              exact absurd rfl hnotData

/-! ## The loop of `reconcile` -/

/-- `Polls budget l l'`: with this budget the loop of `reconcile`, started in `l`, calls
`next_transmit` in `l'`. -/
inductive Polls : Nat → LinkLayer → LinkLayer → Prop
  | here (budget : Nat) (l : LinkLayer) : Polls (budget + 1) l l
  | later (budget : Nat) (l l₁ l' : LinkLayer) (next : PacketOrDetect)
      (hnext : l.nextTransmit = some (l₁, some next))
      (hrest : Polls budget (l₁.sendEvent (.write next)).refreshDataStatus l') :
      Polls (budget + 1) l l'

/-- The loop goes through exactly when each of its calls does. -/
theorem transmitLoop_isSome {budget : Nat} {l : LinkLayer} :
    (LinkLayer.transmitLoop budget l).isSome = true ↔
      ∀ l', Polls budget l l' → l'.nextTransmit.isSome = true := by
  induction budget generalizing l with
  | zero =>
    refine ⟨fun _ l' h => ?_, fun _ => rfl⟩
    cases h
  | succ budget ih =>
    unfold LinkLayer.transmitLoop
    cases hnext : l.nextTransmit with
    | none =>
      refine ⟨fun h => absurd h (by simp), fun h => ?_⟩
      have hhere := h l (.here budget l)
      rw [hnext] at hhere
      cases hhere
    | some result =>
      obtain ⟨l₁, _ | next⟩ := result
      · refine ⟨fun _ l' h => ?_, fun _ => rfl⟩
        cases h with
        | here =>
          rw [hnext]
          rfl
        | later _ _ _ _ _ hlater _ =>
          rw [hnext] at hlater
          cases hlater
      · simp only [Option.bind_eq_bind, Option.bind_some]
        rw [ih]
        constructor
        · intro h l' hpolls
          cases hpolls with
          | here =>
            rw [hnext]
            rfl
          | later _ _ _ _ _ hlater hrest =>
            rw [hnext] at hlater
            obtain ⟨rfl, hsame⟩ := Prod.mk.inj (Option.some.inj hlater)
            obtain rfl := Option.some.inj hsame
            exact h l' hrest
        · intro h l' hpolls
          exact h l' (.later budget l l₁ l' next hnext hpolls)

/-! ## Runs -/

/-- The calls by which packets come in and frames go out. -/
def onPath : Session.Call → Bool
  | .read _ | .reconcile _ => true
  | _ => false

/-- The call meets no panic. -/
def CallSafe (s : Session) : Session.Call → Prop
  | .read (.packet p) => ReadSafe s.link p
  | .reconcile txBudget => ∀ l, Polls txBudget s.link.drainEvents l → TransmitSafe l
  | _ => True

/-- **One call** goes through exactly when it is safe. -/
theorem step_isSome_iff {s : Session} {call : Session.Call} (h : onPath call = true) :
    (s.step call).isSome = true ↔ CallSafe s call := by
  unfold Session.step
  rw [Option.isSome_map]
  cases call with
  | read frame =>
    have hread : (Session.callLink s.link (.read frame)).isSome = true ↔
        ∀ p, frame = .packet p → ReadSafe s.link p := read_isSome_iff
    rw [hread]
    cases frame <;> simp [CallSafe]
  | reconcile txBudget =>
    have hreconcile : (Session.callLink s.link (.reconcile txBudget)).isSome =
        (LinkLayer.transmitLoop txBudget s.link.drainEvents).isSome := Option.isSome_map
    rw [hreconcile, transmitLoop_isSome]
    exact forall₂_congr fun l _ => nextTransmit_isSome_iff
  | _ => cases h

/-- **No packet stops the program**: along every run, every reception and every transmission
goes through, exactly when all of them are safe. -/
theorem link_survives (server : Bool) (clock : Nat) (lspNegotiator : LSPNegotiator)
    (calls : List Session.Call) :
    AllSteps Session.step (fun s call => onPath call = true → (s.step call).isSome = true)
        (.fresh server clock lspNegotiator) calls ↔
      AllSteps Session.step (fun s call => onPath call = true → CallSafe s call)
        (.fresh server clock lspNegotiator) calls := by
  have hexact : (fun (s : Session) (call : Session.Call) =>
      onPath call = true → (s.step call).isSome = true) =
        fun s call => onPath call = true → CallSafe s call := by
    funext s call
    exact propext (imp_congr_right step_isSome_iff)
  rw [hexact]

/-- A host in the data phase that reads a file transfer with the id 255. -/
def unknownFile : List Session.Call :=
  [.read (.packet ⟨⟨11, .ACK, 0x20, 0x0F, 0⟩, some [0]⟩),
    .read (.packet ⟨⟨12, .ACK, 0x21, 0x0F, 2⟩, some [255, 4]⟩)]

/-- One packet stops the program. -/
theorem unknownFile_crashes :
    ¬ ∀ (server : Bool) (clock : Nat) (lspNegotiator : LSPNegotiator)
      (calls : List Session.Call),
      AllSteps Session.step (fun s call => onPath call = true → (s.step call).isSome = true)
        (.fresh server clock lspNegotiator) calls := by
  intro h
  have hsafe := h true 0 (SimpleLSPNegotiator .bluetooth) unknownFile
  obtain ⟨-, hsecond⟩ := hsafe
  have hthird := (hsecond _ rfl).1 rfl
  cases hthird

end Catplay.Analysis.Link
