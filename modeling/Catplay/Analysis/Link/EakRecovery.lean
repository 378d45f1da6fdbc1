import Catplay.Analysis.Link.Recovery

/-!
# The recovery that an EAK begins

An EAK lists the packets that the peer misses, and until a newer acknowledgement arrives the link
looks at the first of them and at nothing else. So a first number that is outstanding is sent
again with every frame until the link gives up, a later one never is, and a first number that is
not outstanding stops the payloads and the retransmissions. `EakRecovery` is what a peer expects
of the recovery; it holds exactly where there is nothing to recover (`eak_recovery`).
-/

set_option autoImplicit false

namespace Catplay.Analysis.Link

open Catplay.Library Catplay.Library.Run Catplay.Model.Link

/-- **What an EAK is for**, of the link after it has read one that lists `psns`. At a fixed clock
the link does not give up, and it sends each of these packets that it still has, once in each
retransmission timeout. If it has none of them, the EAK makes no difference. -/
structure EakRecovery (l : LinkLayer) (psns : List UInt8) : Prop where
  alive : ∀ budgets l', run reconcileStep l budgets = some l' →
    l'.status ≠ .error .retransmissionsExceeded
  retransmitted : ∀ seq ∈ psns, (l.retransmitMap seq).isSome = true →
    ∃ budgets l', run reconcileStep l budgets = some l' ∧
      1 ≤ transmissions seq (writes l'.events)
  paced : ∀ seq ∈ psns, (l.retransmitMap seq).isSome = true →
    l.localLsp.retransmissionTimeout ≠ 0 → ∀ budgets l', run reconcileStep l budgets = some l' →
      transmissions seq (writes l'.events) ≤ 1
  unblocked : (∀ seq ∈ psns, l.retransmitMap seq = none) → l.isWindowWritable = true →
    l.status = .writable
  timers : (∀ seq ∈ psns, l.retransmitMap seq = none) → ∀ clock seq entry,
    l.retransmitMap seq = some entry → entry.timeoutDeadline ≤ clock →
      ({ l with clock } : LinkLayer).nextRetransmitSeq.isSome = true

/-! ## When it does what it is for -/

/-- The packet is kept for retransmission, and the acknowledgement of `p` does not cover it. -/
def Outstanding (l : LinkLayer) (p : Packet) (seq : UInt8) (entry : RetransmitEntry) : Prop :=
  l.retransmitMap seq = some entry ∧
    (l.isNewerAck p.header.ack = true → ModSeq8.gt seq p.header.ack = true)

/-- The window is open with the acknowledgement of `p`. -/
def WindowOpens (l : LinkLayer) (p : Packet) : Prop :=
  ∀ peerAck, (if l.isNewerAck p.header.ack = true then some p.header.ack else l.peerAck) =
    some peerAck → l.ownSeq - peerAck ≤ l.peerLsp.maxOutgoing

/-- No due packet has been sent too often. With a timeout of zero, when a packet is due as soon as
it is sent, none may be due and no payload may be sent. An iAP1 payload ends the link before. -/
def TriesLeft (l : LinkLayer) (p : Packet) : Prop :=
  l.lingo.queueTx ≠ [] ∨
    ((∀ seq entry, Outstanding l p seq entry → entry.timeoutDeadline ≤ l.clock →
        l.localLsp.retransmissionTimeout ≠ 0 ∧
          entry.retryCount < l.localLsp.maxRetransmissions) ∧
      (l.localLsp.retransmissionTimeout = 0 → ¬ (WindowOpens l p ∧ NextFits l)))

/-- **Nothing to recover**: the EAK lists nothing at all, or nothing is outstanding while the
window is closed. -/
def NothingToRecover (l : LinkLayer) (p : Packet) (psns : List UInt8) : Prop :=
  (psns = [] ∧ TriesLeft l p) ∨
    (psns ≠ [] ∧ (∀ seq entry, ¬ Outstanding l p seq entry) ∧ ¬ WindowOpens l p)

/-! ## Reading an EAK -/

/-- What an EAK leaves alone. -/
structure SameRest (l l' : LinkLayer) : Prop where
  clock : l'.clock = l.clock
  localLsp : l'.localLsp = l.localLsp
  peerLsp : l'.peerLsp = l.peerLsp
  ownSeq : l'.ownSeq = l.ownSeq
  peerSeq : l'.peerSeq = l.peerSeq
  lingo : l'.lingo = l.lingo
  queue : l'.nextPayload.2 = l.nextPayload.2
  quiet : writes l'.events = writes l.events

/-- The link after it has taken the acknowledgement of the EAK. -/
structure AckTaken (l : LinkLayer) (p : Packet) (l' : LinkLayer) : Prop where
  data : l'.status.isData = true
  rest : SameRest l l'
  peerAck : l'.peerAck =
    if l.isNewerAck p.header.ack = true then some p.header.ack else l.peerAck
  known : l'.peerAck.isSome = true
  kept : ∀ seq entry, l'.retransmitMap seq = some entry ↔ Outstanding l p seq entry

/-- The link after it has read the EAK. -/
structure EakRead (l : LinkLayer) (p : Packet) (psns : List UInt8) (l' : LinkLayer) : Prop where
  status : l'.status = l'.nextDataStatus
  rest : SameRest l l'
  window : l'.isWindowWritable = true ↔ WindowOpens l p
  missing : l'.missingPsns = psns
  kept : ∀ seq entry, l'.retransmitMap seq = some entry ↔ Outstanding l p seq entry

theorem SameRest.refresh {l l' : LinkLayer} (h : SameRest l l') :
    SameRest l l'.refreshDataStatus := by
  have hsame := SameWindow.refreshDataStatus l'
  exact ⟨hsame.clock.trans h.clock, hsame.localLsp.trans h.localLsp,
    hsame.peerLsp.trans h.peerLsp, hsame.ownSeq.trans h.ownSeq, hsame.peerSeq.trans h.peerSeq,
    hsame.lingo.trans h.lingo, (nextPayload_refreshDataStatus l').trans h.queue,
    (refreshDataStatus_quiet l').1.trans h.quiet⟩

theorem SameRest.nextFits {l l' : LinkLayer} (h : SameRest l l') : NextFits l' ↔ NextFits l := by
  unfold NextFits LinkLayer.findSessionOfType
  rw [h.queue, h.peerSeq, h.localLsp, h.peerLsp]

theorem AckTaken.refresh {l l' : LinkLayer} {p : Packet} (h : AckTaken l p l') :
    AckTaken l p l'.refreshDataStatus := by
  have hsame := SameWindow.refreshDataStatus l'
  refine ⟨?_, h.rest.refresh, hsame.peerAck.trans h.peerAck, ?_, ?_⟩
  · rw [status_refreshDataStatus h.data]
    exact nextDataStatus_isData l'
  · rw [hsame.peerAck]
    exact h.known
  · rw [hsame.retransmitMap]
    exact h.kept

theorem readAck_eak {l : LinkLayer} {p : Packet} (hdata : l.status.isData = true)
    (heak : p.header.control.isEak = true) : AckTaken l p (l.readAck p) := by
  have hany : p.header.control.isAnyAck = true := by
    unfold LinkControl.isAnyAck
    rw [heak, Bool.or_true]
  unfold LinkLayer.readAck
  dsimp only
  rw [hany, Bool.true_and]
  by_cases hnewer : l.isNewerAck p.header.ack = true
  · rw [if_pos hnewer]
    apply AckTaken.refresh
    refine ⟨hdata, ⟨rfl, rfl, rfl, rfl, rfl, rfl, nextPayload_congr rfl rfl rfl rfl, rfl⟩,
      (if_pos hnewer).symm, rfl, fun seq entry => ?_⟩
    show (l.retransmitMap.retain fun seq => ModSeq8.gt seq p.header.ack) seq = some entry ↔ _
    rw [ByteMap.retain_apply]
    unfold Outstanding
    split
    · rename_i hgt
      exact ⟨fun hentry => ⟨hentry, fun _ => hgt⟩, fun hentry => hentry.1⟩
    · rename_i hgt
      exact iff_of_false (by simp) fun hentry => hgt (hentry.2 hnewer)
  · rw [if_neg hnewer]
    refine ⟨hdata, ⟨rfl, rfl, rfl, rfl, rfl, rfl, rfl, rfl⟩, (if_neg hnewer).symm, ?_,
      fun seq entry => ⟨fun hentry => ⟨hentry, fun hbad => absurd hbad hnewer⟩, fun h => h.1⟩⟩
    unfold LinkLayer.isNewerAck at hnewer
    cases hpeer : l.peerAck with
    | none =>
      rw [hpeer] at hnewer
      exact absurd rfl hnewer
    | some peerAck => rfl

theorem readEak_eq {l : LinkLayer} {p : Packet} {psns : List UInt8}
    (heak : eakPsnsFromPacket p = some psns) (hknown : l.peerAck.isSome = true) :
    l.readEak p = { l with missingPsns := psns }.refreshDataStatus := by
  unfold LinkLayer.readEak
  split
  · rename_i listed peerAck hlisted hpeer
    rw [heak] at hlisted
    rw [Option.some.inj hlisted]
  · rename_i hnone
    obtain ⟨peerAck, hpeer⟩ := Option.isSome_iff_exists.mp hknown
    exact absurd hpeer (hnone psns peerAck heak)

/-- The recovery begins. -/
theorem AckTaken.eakRead {l l' : LinkLayer} {p : Packet} (h : AckTaken l p l')
    (psns : List UInt8) :
    EakRead l p psns { l' with missingPsns := psns }.refreshDataStatus := by
  have hsame := SameWindow.refreshDataStatus { l' with missingPsns := psns }
  have hqueue : ({ l' with missingPsns := psns } : LinkLayer).nextPayload.2 = l'.nextPayload.2 :=
    nextPayload_congr rfl rfl rfl rfl
  have hrest : SameRest l { l' with missingPsns := psns } :=
    ⟨h.rest.clock, h.rest.localLsp, h.rest.peerLsp, h.rest.ownSeq, h.rest.peerSeq, h.rest.lingo,
      hqueue.trans h.rest.queue, h.rest.quiet⟩
  have hdata : ({ l' with missingPsns := psns } : LinkLayer).status.isData = true := h.data
  refine ⟨?_, hrest.refresh, ?_, hsame.missingPsns, ?_⟩
  · rw [status_refreshDataStatus hdata]
    unfold LinkLayer.nextDataStatus
    rw [hsame.missingPsns, hsame.isWindowWritable]
  · rw [hsame.isWindowWritable]
    obtain ⟨peerAck, hpeer⟩ := Option.isSome_iff_exists.mp h.known
    unfold LinkLayer.isWindowWritable WindowOpens
    rw [← h.peerAck, hpeer]
    dsimp only
    rw [h.rest.ownSeq, h.rest.peerLsp, decide_eq_true_eq]
    exact ⟨fun hopen other hother => Option.some.inj hother ▸ hopen, fun hopen => hopen peerAck rfl⟩
  · rw [hsame.retransmitMap]
    exact h.kept

/-- **Reading an EAK** begins the recovery and does nothing else. -/
theorem read_eak {l : LinkLayer} {p : Packet} {psns : List UInt8} (hdata : l.status.isData = true)
    (heak : eakPsnsFromPacket p = some psns) (hsize : p.size ≤ l.localLsp.maxLen.toNat) :
    ∃ l', l.read (.packet p) = some l' ∧ EakRead l p psns l' := by
  have hcontrol : p.header.control.isEak = true := by
    unfold eakPsnsFromPacket at heak
    split at heak
    · assumption
    · cases heak
  have htaken := readAck_eak hdata hcontrol
  refine ⟨_, ?_, htaken.eakRead psns⟩
  have hbits : p.header.control = LinkControl.ACK.union .EAK := isEak_iff.mp hcontrol
  have hrst : p.header.control.isRst = false := by
    rw [hbits]
    rfl
  have hack : p.header.control.isAck = false := by
    rw [hbits]
    rfl
  have hrunning : l.isError = false := by
    unfold LinkLayer.isError
    split
    · rename_i error hstatus
      rw [hstatus] at hdata
      cases hdata
    · rfl
  have hother : ∀ status : LinkStatus, status.isData = false → l.status ≠ status := by
    rintro status hstatus rfl
    rw [hstatus] at hdata
    cases hdata
  have hnegotiating : (l.readAck p).status ≠ .negotiating := by
    intro hbad
    have htaken' := htaken.data
    rw [hbad] at htaken'
    cases htaken'
  unfold LinkLayer.read LinkLayer.readPacket LinkLayer.isDowngrade
  simp only [hrunning, hother .downgrade rfl, hother .detecting rfl, hrst, Bool.false_eq_true,
    if_false, decide_false, Bool.and_false, if_neg (Nat.not_lt.mpr hsize), if_neg hnegotiating,
    htaken.data, if_true]
  unfold LinkLayer.readData
  rw [readEak_eq heak htaken.known]
  dsimp only
  split
  · rfl
  · rw [if_pos]
    exact Or.inl (by rw [hack]; exact Bool.false_ne_true)

/-! ## Exactly then -/

/-- A link in the data phase that cannot send the first missing packet, or holds an iAP1
payload. -/
theorem mute_of_missing {l : LinkLayer} (hdata : l.status.isData = true)
    (hstatus : l.status = l.nextDataStatus) {seq : UInt8} {rest : List UInt8}
    (hmissing : l.missingPsns = seq :: rest)
    (h : l.lingo.queueTx ≠ [] ∨ l.retransmitMap seq = none) : Mute l := by
  rcases h with hlingo | hgone
  · exact .legacy hdata hlingo
  · refine .stuck seq rest ?_ hmissing hgone
    rw [hstatus]
    unfold LinkLayer.nextDataStatus
    rw [hmissing, if_pos (List.cons_ne_nil seq rest)]

section Read

variable {l l' : LinkLayer} {p : Packet} {psns : List UInt8}

/-- Without a list the window and the timers count as before. -/
theorem EakRead.unblocked (h : EakRead l p [] l') (hwindow : l'.isWindowWritable = true) :
    l'.status = .writable := by
  rw [h.status]
  unfold LinkLayer.nextDataStatus
  rw [h.missing, if_neg (by simp), if_pos hwindow]

theorem EakRead.timers (h : EakRead l p [] l') {clock : Nat} {seq : UInt8}
    {entry : RetransmitEntry} (hentry : l'.retransmitMap seq = some entry)
    (hdue : entry.timeoutDeadline ≤ clock) :
    ({ l' with clock } : LinkLayer).nextRetransmitSeq.isSome = true := by
  have hmissing : ({ l' with clock } : LinkLayer).missingPsns = [] := h.missing
  exact (retransmit_due_iff hmissing).mpr ⟨seq, entry, hentry, hdue⟩

/-- **Tries left.** Without a list the link does not give up where it has tries left. -/
theorem EakRead.alive (h : EakRead l p [] l') (hdata : l'.status.isData = true)
    (htries : TriesLeft l p) : ∀ budgets l'', run reconcileStep l' budgets = some l'' →
      l''.status ≠ .error .retransmissionsExceeded := by
  intro budgets l'' hrun
  by_cases hlingo : l.lingo.queueTx = []
  · obtain ⟨hdue, hlater⟩ := htries.resolve_left (fun hbad => hbad hlingo)
    refine Spared.run (.fit hdata (by rw [h.rest.lingo]; exact hlingo) ⟨h.missing, ?_, ?_⟩) hrun
    · rw [h.rest.clock, h.rest.localLsp]
      exact fun seq entry hentry => hdue seq entry ((h.kept seq entry).mp hentry)
    · rw [h.rest.localLsp, h.window, h.rest.nextFits]
      exact hlater
  · exact (Mute.run (.legacy hdata (by rw [h.rest.lingo]; exact hlingo)) hrun).1

/-- **No tries left.** Otherwise it gives up. -/
theorem EakRead.exceeds (h : EakRead l p [] l') (hdata : l'.status.isData = true)
    (hkept : ∀ seq entry, l'.retransmitMap seq = some entry →
      l'.peerSeq.isSome = true ∨ entry.packet.header.control.isSyn = true)
    (htries : ¬ TriesLeft l p) : ∃ budgets l'', run reconcileStep l' budgets = some l'' ∧
      l''.status = .error .retransmissionsExceeded := by
  unfold TriesLeft at htries
  obtain ⟨hlingo, hbad⟩ := not_or.mp htries
  have hnoLegacy : l'.lingo.queueTx = [] := by
    rw [h.rest.lingo]
    exact not_not.mp hlingo
  by_cases hpress : ∃ seq entry, l'.retransmitMap seq = some entry ∧
      entry.timeoutDeadline ≤ l'.clock ∧ (l'.localLsp.retransmissionTimeout = 0 ∨
        l'.localLsp.maxRetransmissions ≤ entry.retryCount)
  · exact Pressed.run ⟨hdata, hnoLegacy, hkept, Or.inr ⟨h.missing, hpress⟩⟩
  · -- no packet is due too often, so a payload is sent while the timeout is zero
    have hdue : ∀ seq entry, Outstanding l p seq entry → entry.timeoutDeadline ≤ l.clock →
        l.localLsp.retransmissionTimeout ≠ 0 ∧
          entry.retryCount < l.localLsp.maxRetransmissions := by
      intro seq entry hentry hdue
      have hentry' := (h.kept seq entry).mpr hentry
      refine ⟨fun hzero => hpress ⟨seq, entry, hentry', ?_, Or.inl ?_⟩, ?_⟩
      · rw [h.rest.clock]
        exact hdue
      · rw [h.rest.localLsp]
        exact hzero
      · refine UInt8.not_le.mp fun hlimit => hpress ⟨seq, entry, hentry', ?_, Or.inr ?_⟩
        · rw [h.rest.clock]
          exact hdue
        · rw [h.rest.localLsp]
          exact hlimit
    obtain ⟨hzero, hsend⟩ := Classical.not_imp.mp fun hlater => hbad ⟨hdue, hlater⟩
    obtain ⟨hwindow, hfits⟩ := not_not.mp hsend
    have hzero' : l'.localLsp.retransmissionTimeout = 0 := by
      rw [h.rest.localLsp]
      exact hzero
    have hopen := h.window.mpr hwindow
    have hnone : l'.nextRetransmitSeq = none := by
      rw [← Option.not_isSome_iff_eq_none, retransmit_due_iff h.missing]
      rintro ⟨seq, entry, hentry, hdue'⟩
      exact hpress ⟨seq, entry, hentry, hdue', Or.inl hzero'⟩
    exact NextFits.exceeds (h.rest.nextFits.mpr hfits) h.missing hzero' (h.unblocked hopen) hopen
      hnoLegacy hnone

/-- **A list that names anything** serves its purpose only where nothing is outstanding and the
window is closed. -/
theorem EakRead.listed (h : EakRead l p psns l') (hdata : l'.status.isData = true)
    (hkept : ∀ seq entry, l'.retransmitMap seq = some entry →
      l'.peerSeq.isSome = true ∨ entry.packet.header.control.isSyn = true)
    (hquiet : writes l'.events = []) {first : UInt8} {rest : List UInt8}
    (hpsns : psns = first :: rest) :
    EakRecovery l' psns ↔ (∀ seq entry, ¬ Outstanding l p seq entry) ∧ ¬ WindowOpens l p := by
  have hmissing : l'.missingPsns = first :: rest := h.missing.trans hpsns
  have hmute : l'.lingo.queueTx ≠ [] ∨ l'.retransmitMap first = none → Mute l' :=
    mute_of_missing hdata h.status hmissing
  have hsilent : Mute l' → ∀ seq budgets l'', run reconcileStep l' budgets = some l'' →
      transmissions seq (writes l''.events) = 0 := by
    intro hm seq budgets l'' hrun
    rw [(hm.run hrun).2 seq, hquiet]
    rfl
  constructor
  · intro hrec
    -- the first number cannot be outstanding
    have hgone : l'.retransmitMap first = none := by
      by_contra hsome
      have hfirst : (l'.retransmitMap first).isSome = true := Option.isSome_iff_ne_none.mpr hsome
      by_cases hlingo : l'.lingo.queueTx = []
      · obtain ⟨budgets, l'', hrun, hstatus⟩ := Pressed.run (l := l')
          ⟨hdata, hlingo, hkept, Or.inl ⟨first, rest, hmissing, hfirst⟩⟩
        exact hrec.alive budgets l'' hrun hstatus
      · obtain ⟨budgets, l'', hrun, hcount⟩ := hrec.retransmitted first
          (by rw [hpsns]; exact List.mem_cons_self) hfirst
        rw [hsilent (hmute (Or.inl hlingo)) first budgets l'' hrun] at hcount
        exact absurd hcount (by decide)
    -- and no other one, as it is never sent
    have hnone : ∀ seq ∈ psns, l'.retransmitMap seq = none := by
      intro seq hseq
      by_contra hsome
      obtain ⟨budgets, l'', hrun, hcount⟩ := hrec.retransmitted seq hseq
        (Option.isSome_iff_ne_none.mpr hsome)
      rw [hsilent (hmute (Or.inr hgone)) seq budgets l'' hrun] at hcount
      exact absurd hcount (by decide)
    refine ⟨fun seq entry hentry => ?_, fun hwindow => ?_⟩
    · have hdue := hrec.timers hnone entry.timeoutDeadline seq entry
        ((h.kept seq entry).mpr hentry) (Nat.le_refl _)
      unfold LinkLayer.nextRetransmitSeq at hdue
      rw [hmissing] at hdue
      dsimp only at hdue
      rw [hgone] at hdue
      cases hdue
    · have hwritable := hrec.unblocked hnone (h.window.mpr hwindow)
      rw [h.status] at hwritable
      unfold LinkLayer.nextDataStatus at hwritable
      rw [hmissing, if_pos (List.cons_ne_nil first rest)] at hwritable
      cases hwritable
  · rintro ⟨hempty, hclosed⟩
    have hnone : ∀ seq, l'.retransmitMap seq = none := by
      intro seq
      by_contra hsome
      obtain ⟨entry, hentry⟩ := Option.ne_none_iff_exists'.mp hsome
      exact hempty seq entry ((h.kept seq entry).mp hentry)
    have habsent : ∀ seq, ¬ (l'.retransmitMap seq).isSome = true := by
      intro seq hsome
      rw [hnone seq] at hsome
      cases hsome
    exact ⟨fun budgets l'' hrun => ((hmute (Or.inr (hnone first))).run hrun).1,
      fun seq _ hsome => absurd hsome (habsent seq), fun seq _ hsome => absurd hsome (habsent seq),
      fun _ hwindow => absurd (h.window.mp hwindow) hclosed,
      fun _ _ seq entry hentry => absurd hentry (by rw [hnone seq]; simp)⟩

end Read

/-- **The recovery that an EAK begins.** Whatever has happened to the link before, and whatever EAK
it reads in the data phase: the recovery is what the peer expects exactly where there is nothing to
recover. -/
theorem eak_recovery {server : Bool} {clock : Nat} {lspNegotiator : LSPNegotiator}
    {calls : List Session.Call} {s : Session}
    (hrun : run Session.step (.fresh server clock lspNegotiator) calls = some s)
    (hdata : s.link.status.isData = true) {p : Packet} {psns : List UInt8}
    (heak : eakPsnsFromPacket p = some psns) (hsize : p.size ≤ s.link.localLsp.maxLen.toNat) :
    ∃ l', s.link.read (.packet p) = some l' ∧
      (EakRecovery l' psns ↔ NothingToRecover s.link p psns) := by
  obtain ⟨hevents, hsane⟩ := Sane.run hrun
  obtain ⟨l', hread, h⟩ := read_eak hdata heak hsize
  refine ⟨l', hread, ?_⟩
  have hdata' : l'.status.isData = true := by
    rw [h.status]
    exact nextDataStatus_isData l'
  have hquiet : writes l'.events = [] := by
    rw [h.rest.quiet, hevents]
    rfl
  have hkept : ∀ seq entry, l'.retransmitMap seq = some entry →
      l'.peerSeq.isSome = true ∨ entry.packet.header.control.isSyn = true := by
    intro seq entry hentry
    have hunacked : (coreOf s.link).unacked seq = some entry.packet := by
      unfold coreOf
      dsimp only
      rw [((h.kept seq entry).mp hentry).1]
      rfl
    rw [h.rest.peerSeq]
    exact hsane.kept seq entry.packet hunacked
  cases hpsns : psns with
  | nil =>
    rw [hpsns] at h
    constructor
    · intro hrec
      refine Or.inl ⟨rfl, ?_⟩
      by_contra htries
      obtain ⟨budgets, l'', hrun', hstatus⟩ := h.exceeds hdata' hkept htries
      exact hrec.alive budgets l'' hrun' hstatus
    · rintro (⟨-, htries⟩ | ⟨hbad, -⟩)
      · exact ⟨h.alive hdata' htries, fun _ hmem => (by cases hmem), fun _ hmem => (by cases hmem),
          fun _ hwindow => h.unblocked hwindow,
          fun _ clock seq entry hentry hdue => h.timers hentry hdue⟩
      · exact absurd rfl hbad
  | cons first rest =>
    rw [← hpsns, h.listed hdata' hkept hquiet hpsns]
    constructor
    · exact fun hquietNow => Or.inr ⟨by rw [hpsns]; exact List.cons_ne_nil first rest, hquietNow⟩
    · rintro (⟨hbad, -⟩ | ⟨-, hquietNow⟩)
      · rw [hpsns] at hbad
        cases hbad
      · exact hquietNow

/-- A host that an ACK has opened. -/
def openedByAck : List Session.Call :=
  [.read (.packet ⟨⟨11, .ACK, 0x20, 0x0F, 0⟩, some [0]⟩)]

/-- An EAK that lists the given numbers. -/
def eakOf (psns : List UInt8) : Packet :=
  ⟨⟨.ofNat (psns.length + Packet.packetOverhead), LinkControl.ACK.union .EAK, 0x21, 0x0F, 0⟩,
    some psns⟩

/-- An EAK with an empty list does no harm to a host that has sent nothing. -/
theorem eak_recovery_nothing :
    ∃ s l', run Session.step (.fresh true 0 (SimpleLSPNegotiator .bluetooth)) openedByAck =
        some s ∧ s.link.read (.packet (eakOf [])) = some l' ∧ EakRecovery l' [] := by
  have hfacts : (run Session.step (.fresh true 0 (SimpleLSPNegotiator .bluetooth)) openedByAck).map
      (fun s => (s.link.status, s.link.localLsp)) = some (.writable, .bluetooth) := rfl
  have hmap : (run Session.step (.fresh true 0 (SimpleLSPNegotiator .bluetooth)) openedByAck).map
      (fun s => s.link.retransmitMap) =
        some (ByteMap.empty.retain fun seq => ModSeq8.gt seq 0x0F) := rfl
  obtain ⟨s, hrun, hlink⟩ := Option.map_eq_some_iff.mp hfacts
  rw [hrun] at hmap
  obtain ⟨hstatus, hlsp⟩ := Prod.mk.inj hlink
  have hempty : s.link.retransmitMap = ByteMap.empty.retain fun seq => ModSeq8.gt seq 0x0F :=
    Option.some.inj hmap
  have hdata : s.link.status.isData = true := by
    rw [hstatus]
    rfl
  have hsize : (eakOf []).size ≤ s.link.localLsp.maxLen.toNat := by
    rw [hlsp]
    decide
  obtain ⟨l', hread, hiff⟩ := eak_recovery hrun hdata (p := eakOf []) rfl hsize
  refine ⟨s, l', hrun, hread, hiff.mpr (Or.inl ⟨rfl, Or.inr ⟨fun seq entry hentry => ?_, ?_⟩⟩)⟩
  · have hkept := hentry.1
    rw [hempty, ByteMap.retain_apply] at hkept
    split at hkept <;> cases hkept
  · rw [hlsp]
    intro hbad
    exact absurd hbad (by decide)

/-- **Given up.** A host that has sent one packet and reads an EAK that lists it gives up, though
no time has passed. -/
theorem eak_exhausts :
    ¬ ∀ (server : Bool) (clock : Nat) (lspNegotiator : LSPNegotiator) (calls : List Session.Call)
      (s : Session), run Session.step (.fresh server clock lspNegotiator) calls = some s →
        s.link.status.isData = true → ∀ p psns, eakPsnsFromPacket p = some psns →
          p.size ≤ s.link.localLsp.maxLen.toNat → ∀ l', s.link.read (.packet p) = some l' →
            EakRecovery l' psns := by
  intro h
  have hstart : (run Session.step (.fresh true 0 (SimpleLSPNegotiator .bluetooth))
      (openedByAck ++ [.enqueueCsm [1], .reconcile 1])).map
        (fun s => (s.link.status, s.link.localLsp)) = some (.writable, .bluetooth) := rfl
  have hend : ((run Session.step (.fresh true 0 (SimpleLSPNegotiator .bluetooth))
      (openedByAck ++ [.enqueueCsm [1], .reconcile 1])).bind
        fun s => s.link.read (.packet (eakOf [0x10]))).map
        (fun l => (l.status, l.lingo.queueTx, l.peerSeq, l.missingPsns,
          (l.retransmitMap 0x10).isSome)) = some (.recovery, [], some 0x20, [0x10], true) := rfl
  obtain ⟨s, hrun, hlink⟩ := Option.map_eq_some_iff.mp hstart
  obtain ⟨hstatus, hlsp⟩ := Prod.mk.inj hlink
  rw [hrun, Option.bind_some] at hend
  obtain ⟨l', hread, hfacts⟩ := Option.map_eq_some_iff.mp hend
  simp only [Prod.mk.injEq] at hfacts
  obtain ⟨hrecovery, hlingo, hpeer, hmissing, hkept⟩ := hfacts
  have hpressed : Pressed l' := by
    refine ⟨?_, hlingo, fun _ _ _ => Or.inl ?_, Or.inl ⟨0x10, [], hmissing, hkept⟩⟩
    · rw [hrecovery]
      rfl
    · rw [hpeer]
      rfl
  have hrec := h true 0 (SimpleLSPNegotiator .bluetooth) _ s hrun (by rw [hstatus]; rfl)
    (eakOf [0x10]) [0x10] rfl (by rw [hlsp]; decide) l' hread
  obtain ⟨budgets, l'', hrun', hexceeded⟩ := hpressed.run
  exact hrec.alive budgets l'' hrun' hexceeded

end Catplay.Analysis.Link
