import Catplay.Analysis.Link.Calls

/-!
# How a host opens its link

A host opens its link with the first exact ACK it reads while it negotiates, whatever
the ACK acknowledges. So a link that carries data has a negotiation behind it exactly
when every such ACK comes after the host's own SYN+ACK. What the host answers goes back
to an offer of the peer: `Answers` carries this through the core, where the proposition
`heard` stands for an offer having been read.
-/

set_option autoImplicit false

namespace Catplay.Analysis.Link

open Catplay.Library Catplay.Library.Run Catplay.Model.Link

/-- A SYN or SYN+ACK with link parameters in it. -/
def Offers (p : Packet) : Prop :=
  (p.header.control.isSyn = true ∨ p.header.control.isSynAck = true) ∧
    (LSPPayload.fromPacket p).isSome = true

/-- A SYN+ACK that offers `lsp`. -/
def OffersBack (q : Packet) (lsp : LSPPayload) : Prop :=
  q.header.control.isSynAck = true ∧ LSPPayload.fromPacket q = some lsp

/-! ## The answers of a host -/

/-- What a host is about to answer, or keeps for retransmission, answers an offer. -/
structure Answers (heard : Prop) (c : Core) : Prop where
  server : c.server = true
  pending : c.negotiation.phase = .offering true → heard
  not_accepting : ∀ pending, c.negotiation.phase ≠ .accepting pending
  kept : ∀ seq q, c.unacked seq = some q → q.header.control.isSynAck = true →
    heard ∧ c.peerSeq.isSome = true

/-- What an emission keeps of a host. -/
structure SameTerms (c c' : Core) : Prop where
  localLsp : c'.localLsp = c.localLsp
  peerSeq : c'.peerSeq = c.peerSeq
  phase : c'.phase = .data → c.phase = .data

theorem SameTerms.trans {c₁ c₂ c₃ : Core} (h₁ : SameTerms c₁ c₂) (h₂ : SameTerms c₂ c₃) :
    SameTerms c₁ c₃ :=
  ⟨h₂.localLsp.trans h₁.localLsp, h₂.peerSeq.trans h₁.peerSeq, fun h => h₁.phase (h₂.phase h)⟩

variable {p : Packet} {c c' : Core} {heard : Prop} {lsp : LSPPayload} {trace : List Observation}
  {s : Session}

/-- An ACK is not a SYN+ACK. -/
theorem not_synAck_of_ack (h : p.header.control = .ACK) :
    ¬ p.header.control.isSynAck = true := by
  rw [isSynAck_iff, h]
  decide

/-- A packet that is kept, and no other. -/
theorem Answers.insert {seq : UInt8} (h : Answers heard c)
    (hp : p.header.control.isSynAck = true → heard ∧ c.peerSeq.isSome = true) :
    ∀ seq' q, c.unacked.insert seq p seq' = some q → q.header.control.isSynAck = true →
      heard ∧ c.peerSeq.isSome = true := by
  intro seq' q hq hsynAck
  rw [ByteMap.insert_apply] at hq
  split at hq
  · obtain rfl := Option.some.inj hq
    exact hp hsynAck
  · exact h.kept seq' q hq hsynAck

/-- **Transmission.** A host writes a SYN+ACK only after it has heard an offer. -/
theorem transmits_answers {taken : Option Bytes}
    {next : Option PacketOrDetect} (h : Answers heard c) (hmove : Core.Transmits c taken c' next) :
    Answers heard c' ∧ SameTerms c c' ∧
      ∀ q, next = some (.packet q) → q.header.control.isSynAck = true →
        heard ∧ c.peerSeq.isSome = true := by
  have hserver := h.server
  have hsame : SameTerms c c := ⟨rfl, rfl, id⟩
  cases hmove with
  | idle | lose _ _ _ => exact ⟨h, hsame, by simp⟩
  | fail _ _ _ => exact ⟨⟨h.server, h.pending, h.not_accepting, h.kept⟩, ⟨rfl, rfl, by simp⟩, by simp⟩
  | legacy _ _ | detectHost _ _ => exact ⟨h, hsame, by simp⟩
  | detectAccessory hclient _ | syn _ hclient _ _ _ => simp [hclient] at hserver
  | dropAnswer _ hpeer =>
    refine ⟨⟨h.server, ?_, ?_, h.kept⟩, ⟨rfl, rfl, id⟩, by simp⟩
    · unfold Negotiation.takePendingTx
      split <;> simp_all [h.pending]
    · intro pending
      have hno := h.not_accepting pending
      have hnot := h.not_accepting true
      unfold Negotiation.takePendingTx
      split <;> simp_all
  | synAck peerSeq p hphase hpending hpeer hp =>
    have hheard := h.pending hpending
    have hsome : c.peerSeq.isSome = true := by simp [hpeer]
    refine ⟨⟨h.server, ?_, ?_, h.insert fun _ => ⟨hheard, hsome⟩⟩, ⟨rfl, rfl, id⟩,
      fun q _ _ => ⟨hheard, hsome⟩⟩
    · intro hphase'
      cases hphase'
    · intro pending hphase'
      cases hphase'
  | finalAck _ _ _ hpending _ _ => exact absurd hpending (h.not_accepting true)
  | retransmit seq kept p hphase hkept hp =>
    have hcontrol : p.header.control = kept.header.control := by
      rcases hp with ⟨-, rfl⟩ | ⟨-, peerSeq, -, rfl⟩ <;> rfl
    have hheard : p.header.control.isSynAck = true → heard ∧ c.peerSeq.isSome = true := by
      rw [hcontrol]
      exact h.kept seq kept hkept
    refine ⟨⟨h.server, h.pending, h.not_accepting, h.insert hheard⟩, ⟨rfl, rfl, id⟩,
      fun q hq => ?_⟩
    obtain rfl := PacketOrDetect.packet.inj (Option.some.inj hq)
    exact hheard
  | payload _ _ peerSeq session p _ _ hpeer _ hp _ =>
    have hack := not_synAck_of_ack (newAck_eq_some hp).1
    refine ⟨⟨h.server, h.pending, h.not_accepting, h.insert fun hbad => absurd hbad hack⟩,
      ⟨rfl, rfl, id⟩, fun q hq hbad => ?_⟩
    obtain rfl := PacketOrDetect.packet.inj (Option.some.inj hq)
    exact absurd hbad hack
  | tooLong _ _ _ _ =>
    exact ⟨⟨h.server, h.pending, h.not_accepting, h.kept⟩, ⟨rfl, rfl, by simp⟩, by simp⟩
  | emptyAck peerSeq p _ hpeer hp =>
    refine ⟨h, hsame, fun q hq hbad => ?_⟩
    obtain rfl := PacketOrDetect.packet.inj (Option.some.inj hq)
    exact absurd hbad (not_synAck_of_ack (newAck_eq_some hp).1)

/-- A sequence of transmissions. -/
theorem emits_answers {takens : List Bytes} {frames : List PacketOrDetect} (h : Answers heard c)
    (hmoves : Core.Emits c takens c' frames) :
    Answers heard c' ∧ SameTerms c c' ∧
      ∀ q, .packet q ∈ frames → q.header.control.isSynAck = true →
        heard ∧ c.peerSeq.isSome = true := by
  induction hmoves with
  | nil => exact ⟨h, ⟨rfl, rfl, id⟩, by simp⟩
  | cons hmove hrest ih =>
    obtain ⟨h₂, hsame₂, hnext⟩ := transmits_answers h hmove
    obtain ⟨h₃, hsame₃, hnexts⟩ := ih h₂
    refine ⟨h₃, hsame₂.trans hsame₃, fun q hq hsynAck => ?_⟩
    rcases List.mem_append.mp hq with hq | hq
    · exact hnext q (Option.mem_toList.mp hq) hsynAck
    · have hheard := hnexts q hq hsynAck
      rwa [hsame₂.peerSeq] at hheard

/-! ## What a host reads -/

/-- What a host knows of the peer after a reception: a number stays known, and the link
stays open on its terms or opens on the offer on record. -/
structure Continues (c : Core) (frame : PacketOrDetect) (c' : Core) : Prop where
  peerSeq : c.peerSeq.isSome = true → c'.peerSeq.isSome = true
  phase : c'.phase = .data →
    (c.phase = .data ∧ c'.localLsp = c.localLsp) ∨
      ∃ p, frame = .packet p ∧ OpensLink c p ∧ c'.localLsp = c.negotiation.localLsp

theorem Answers.mono {heard' : Prop} (h : Answers heard c)
    (hmono : heard → heard') : Answers heard' c :=
  ⟨h.server, fun hpending => hmono (h.pending hpending), h.not_accepting,
    fun seq q hq hsynAck => (h.kept seq q hq hsynAck).imp_left hmono⟩

theorem Answers.receiveAck (h : Answers heard c) (p : Packet) :
    Answers heard (c.receiveAck p) := by
  unfold Core.receiveAck
  split
  · refine ⟨h.server, h.pending, h.not_accepting, fun seq q hq => ?_⟩
    have hkept : c.unacked seq = some q := by
      simp only [ByteMap.retain_apply] at hq
      split at hq
      · exact hq
      · cases hq
    exact h.kept seq q hkept
  · exact h

theorem Answers.wake (h : Answers heard c) : Answers heard c.wake := by
  unfold Core.wake
  split
  · exact ⟨h.server, h.pending, h.not_accepting, h.kept⟩
  · exact h

theorem Answers.advance (h : Answers heard c) (p : Packet) :
    Answers heard (c.advance p) := by
  unfold Core.advance
  split
  · exact ⟨h.server, h.pending, h.not_accepting,
      fun seq q hq hsynAck => (h.kept seq q hq hsynAck).imp_right fun _ => rfl⟩
  · exact h

/-- An offer that the host answers is an offer. -/
theorem offers_of_fromPacket (hlsp : LSPPayload.fromPacket p = some lsp) : Offers p := by
  refine ⟨?_, by rw [hlsp]; rfl⟩
  unfold LSPPayload.fromPacket at hlsp
  split at hlsp
  · rename_i hctl
    exact Bool.or_eq_true_iff.mp hctl
  · cases hlsp

/-- Negotiation: the host owes an answer to what it has just heard. -/
theorem negotiates_answers (h : Answers heard c)
    (hheard : Offers p → heard) (hmove : Core.Negotiates c p c') : Answers heard c' := by
  have hadvance := h.advance p
  cases hmove with
  | ignored => exact h
  | unparsed => exact hadvance
  | exceeded => exact ⟨hadvance.server, h.pending, h.not_accepting, hadvance.kept⟩
  | counter lsp counter _ hlsp =>
    exact ⟨hadvance.server, fun _ => hheard (offers_of_fromPacket hlsp), by simp [Core.offering,
      Negotiation.transitionOffering], hadvance.kept⟩
  | accept lsp hclient =>
    have hserver := h.server
    simp [hclient] at hserver
  | copy lsp _ _ hlsp =>
    exact ⟨hadvance.server, fun _ => hheard (offers_of_fromPacket hlsp), by simp [Core.copying,
      Negotiation.transitionOffering], hadvance.kept⟩
  | opens =>
    refine ⟨hadvance.server, ?_, ?_, hadvance.kept⟩
    · simp [Core.opened, Negotiation.transitionAccepted]
    · simp [Core.opened, Negotiation.transitionAccepted]

theorem delivers_answers {delivered : List Bytes}
    (hmove : Core.Delivers c p c' delivered) (h : Answers heard c) :
    Answers heard c' ∧ (c.peerSeq.isSome = true → c'.peerSeq.isSome = true) ∧
      c'.localLsp = c.localLsp := by
  obtain ⟨peerSeq, outOfOrder, rfl, hknown⟩ := hmove.frame
  refine ⟨⟨h.server, h.pending, h.not_accepting, fun seq q hq hsynAck => ?_⟩, hknown, rfl⟩
  exact (h.kept seq q hq hsynAck).imp_right hknown

/-- A known number of the peer stays known. -/
theorem advance_peerSeq (c : Core) (p : Packet) :
    c.peerSeq.isSome = true → (c.advance p).peerSeq.isSome = true := by
  unfold Core.advance
  split
  · exact fun _ => rfl
  · exact id

/-- Negotiation opens the link with an exact ACK only. -/
theorem negotiates_continues (hserver : c.server = true)
    (hphase : c.phase = .negotiating) (hmove : Core.Negotiates c p c') :
    (c.peerSeq.isSome = true → c'.peerSeq.isSome = true) ∧
      (c'.phase = .data → p.header.control.isAck = true ∧
        c'.localLsp = c.negotiation.localLsp) := by
  have hpeer := advance_peerSeq c p
  cases hmove with
  | ignored => exact ⟨id, fun h => by simp [hphase] at h⟩
  | unparsed => exact ⟨hpeer, fun h => by simp [hphase] at h⟩
  | exceeded => exact ⟨hpeer, fun h => by simp at h⟩
  | counter => exact ⟨hpeer, fun h => by simp [Core.offering, hphase] at h⟩
  | accept lsp hclient => simp [hclient] at hserver
  | copy => exact ⟨hpeer, fun h => by simp [Core.copying, hphase] at h⟩
  | opens _ hctl => exact ⟨hpeer, fun _ => ⟨hctl, by simp [Core.opened]⟩⟩

/-- **Reception.** -/
theorem reads_answers {heard' : Prop} {frame : PacketOrDetect}
    {delivered : List Bytes} (h : Answers heard c) (hmono : heard → heard')
    (hheard : ∀ p, frame = .packet p → Offers p → heard')
    (hmove : Core.Reads c frame c' delivered) :
    Answers heard' c' ∧ Continues c frame c' := by
  have hserver := h.server
  have h' := h.mono hmono
  cases hmove with
  | ignore _ hphase | legacy _ hphase =>
    exact ⟨h', id, fun hdata => by simp [hphase] at hdata⟩
  | fail _ _ =>
    exact ⟨⟨h'.server, h'.pending, h'.not_accepting, h'.kept⟩, id, fun hdata => by simp at hdata⟩
  | detect _ _ => exact ⟨h', id, fun hdata => Or.inl ⟨hdata, rfl⟩⟩
  | detectAnswered hclient _ | early _ hclient _ => simp [hclient] at hserver
  | downgraded _ _ _ _ =>
    exact ⟨⟨h'.server, h'.pending, h'.not_accepting, h'.kept⟩, id, fun hdata => by simp at hdata⟩
  | negotiate p _ hphase hsize hneg =>
    have hawake := h'.wake.receiveAck p
    have hnegotiating : (c.wake.receiveAck p).phase = .negotiating := by simpa using hphase
    obtain ⟨hpeer, hopens⟩ := negotiates_continues hawake.server hnegotiating hneg
    refine ⟨negotiates_answers hawake (hheard p rfl) hneg, by simpa using hpeer, fun hdata => ?_⟩
    obtain ⟨hack, hlsp⟩ := hopens hdata
    refine Or.inr ⟨p, rfl, ⟨hack, hsize, Core.phase_of_wake hphase⟩, by simpa using hlsp⟩
  | data p _ _ hphase hsize hdelivers =>
    obtain ⟨hanswers, hpeer, hlsp⟩ := delivers_answers hdelivers (h'.receiveAck p)
    exact ⟨hanswers, by simpa using hpeer, fun _ => Or.inl ⟨hphase, by simpa using hlsp⟩⟩

/-! ## The trace -/

/-- An offer has been received. -/
def Heard (trace : List Observation) : Prop :=
  ∃ p, Offers p ∧ .received (.packet p) ∈ trace

/-- A SYN+ACK that offers `lsp` was written after an offer had been received. -/
def Answered (trace : List Observation) (lsp : LSPPayload) : Prop :=
  ∃ before q after, trace = before ++ .emitted (.write (.packet q)) :: after ∧
    OffersBack q lsp ∧ Heard before

/-- The link carries data only after a negotiation of the parameters it works with. -/
def OpenedByNegotiation (s : Session) : Prop :=
  s.link.status.isData = true →
    Answered s.trace s.link.localLsp ∧ s.link.peerSeq.isSome = true

theorem Heard.append (h : Heard trace) (more : List Observation) :
    Heard (trace ++ more) := by
  obtain ⟨p, hoffers, hmem⟩ := h
  exact ⟨p, hoffers, List.mem_append_left more hmem⟩

theorem Answered.append (h : Answered trace lsp)
    (more : List Observation) : Answered (trace ++ more) lsp := by
  obtain ⟨before, q, after, rfl, hoffers, hheard⟩ := h
  exact ⟨before, q, after ++ more, by simp, hoffers, hheard⟩

/-- A frame among the events of a call has been emitted after everything before the call. -/
theorem answered_of_mem {more : List Observation} {events : List LinkEvent} {q : Packet}
    (hheard : Heard trace) (hoffers : OffersBack q lsp) (hmem : .packet q ∈ writes events) :
    Answered (trace ++ more ++ events.map .emitted) lsp := by
  obtain ⟨event, hevent, hwrite⟩ := List.mem_filterMap.mp hmem
  have hwritten : event = .write (.packet q) := by
    cases event with
    | write next => exact congrArg LinkEvent.write (Option.some.inj hwrite)
    | readCsm | readLegacy | status | fileTransfer => cases hwrite
  obtain ⟨before, after, hsplit⟩ := List.append_of_mem hevent
  refine ⟨trace ++ more ++ before.map .emitted, q, after.map .emitted, ?_, hoffers,
    (hheard.append more).append _⟩
  rw [hsplit, hwritten]
  simp

/-- The written frames of an answer are among the frames written. -/
theorem Answered.mem_written (h : Answered s.trace lsp) :
    ∃ q, .packet q ∈ s.written ∧ OffersBack q lsp := by
  obtain ⟨before, q, after, htrace, hoffers, -⟩ := h
  refine ⟨q, ?_, hoffers⟩
  unfold Session.written
  rw [htrace]
  exact List.mem_filterMap.mpr ⟨.emitted (.write (.packet q)), by simp, rfl⟩

/-! ## The invariant of a host -/

/-- What the trace of a host says about its core. -/
structure HostRecord (s : Session) : Prop where
  events : s.link.events = []
  answers : Answers (Heard s.trace) (coreOf s.link)
  written : ∀ q lsp, .packet q ∈ s.written → OffersBack q lsp →
    Answered s.trace lsp ∧ (coreOf s.link).peerSeq.isSome = true
  opened : (coreOf s.link).phase = .data →
    ∃ q, .packet q ∈ s.written ∧ OffersBack q s.link.localLsp

/-- An exact ACK that opens the link comes after a SYN+ACK with the offer on record. -/
def AckAfterAnswer (s : Session) (call : Session.Call) : Prop :=
  ∀ p, call = .read (.packet p) → OpensLink (coreOf s.link) p →
    ∃ q, .packet q ∈ s.written ∧ OffersBack q s.link.negotiation.localLsp

/-- The step lemma: one call keeps the record. -/
theorem HostRecord.step {s' : Session} {call : Session.Call} (h : HostRecord s)
    (hafter : AckAfterAnswer s call) (hstep : s.step call = some s') : HostRecord s' := by
  obtain ⟨hevents, events, htrace, hwritten, hmoves⟩ := step_moves h.events hstep
  have hmono : Heard s.trace → Heard s'.trace := by
    intro hheard
    rw [htrace]
    exact (hheard.append _).append _
  have hgrows : ∀ lsp, Answered s.trace lsp → Answered s'.trace lsp := by
    intro lsp hanswered
    rw [htrace]
    exact (hanswered.append _).append _
  have hlater : ∀ q lsp, .packet q ∈ writes events → OffersBack q lsp → Heard s.trace →
      Answered s'.trace lsp := by
    intro q lsp hmem hoffers hheard
    rw [htrace]
    exact answered_of_mem hheard hoffers hmem
  -- what is new in the trace answers an offer, and an open link was open or has been offered
  have hkeep : ∀ c', coreOf s'.link = c' → Answers (Heard s'.trace) c' →
      ((coreOf s.link).peerSeq.isSome = true → c'.peerSeq.isSome = true) →
      (∀ q, .packet q ∈ writes events → q.header.control.isSynAck = true →
        Heard s.trace ∧ (coreOf s.link).peerSeq.isSome = true) →
      (c'.phase = .data → ((coreOf s.link).phase = .data ∧ c'.localLsp = (coreOf s.link).localLsp) ∨
        ∃ q, .packet q ∈ s.written ∧ OffersBack q c'.localLsp) → HostRecord s' := by
    rintro c' rfl hanswers hpeer hnew hopen
    refine ⟨hevents, hanswers, fun q lsp hmem hoffers => ?_, fun hdata => ?_⟩
    · rw [hwritten] at hmem
      rcases List.mem_append.mp hmem with hold | hnewer
      · exact (h.written q lsp hold hoffers).imp (hgrows lsp) hpeer
      · obtain ⟨hheard, hsome⟩ := hnew q hnewer hoffers.1
        exact ⟨hlater q lsp hnewer hoffers hheard, hpeer hsome⟩
    · have hoffered : ∃ q, .packet q ∈ s.written ∧ OffersBack q s'.link.localLsp := by
        rcases hopen hdata with ⟨hold, hlsp⟩ | hoffered
        · obtain ⟨q, hmem, hoffers⟩ := h.opened hold
          have hlsp' : s'.link.localLsp = s.link.localLsp := hlsp
          exact ⟨q, hmem, hlsp' ▸ hoffers⟩
        · exact hoffered
      obtain ⟨q, hmem, hoffers⟩ := hoffered
      refine ⟨q, ?_, hoffers⟩
      rw [hwritten]
      exact List.mem_append_left _ hmem
  have hcore := h.answers
  have hcore' := hcore.mono hmono
  generalize hframes : writes events = frames at hmoves hkeep
  generalize hnow : coreOf s'.link = c' at hmoves
  cases hmoves with
  | still => exact hkeep _ hnow hcore' id (by simp) fun hdata => Or.inl ⟨hdata, rfl⟩
  | reconcile _ _ takens _ hemits =>
    obtain ⟨hanswers, hsame, hnew⟩ := emits_answers hcore hemits
    refine hkeep _ hnow (hanswers.mono hmono) (fun hsome => ?_) hnew fun hdata => ?_
    · rw [hsame.peerSeq]
      exact hsome
    · exact Or.inl ⟨hsame.phase hdata, hsame.localLsp⟩
  | read frame _ delivered hreads =>
    have hheard : ∀ p, frame = .packet p → Offers p → Heard s'.trace := by
      rintro p rfl hoffers
      refine ⟨p, hoffers, ?_⟩
      rw [htrace]
      simp [Session.received]
    obtain ⟨hanswers, hcontinues⟩ := reads_answers hcore hmono hheard hreads
    refine hkeep _ hnow hanswers hcontinues.peerSeq (by simp) fun hdata => ?_
    refine (hcontinues.phase hdata).imp id ?_
    rintro ⟨p, rfl, hopens, hlsp⟩
    rw [hlsp]
    exact hafter p rfl hopens
  | downgrade _ _ =>
    refine hkeep _ hnow ?_ id (by simp) (by simp)
    exact ⟨hcore'.server, hcore'.pending, hcore'.not_accepting, hcore'.kept⟩
  | close =>
    refine hkeep _ hnow ?_ id (by simp) (by simp)
    exact ⟨hcore'.server, hcore'.pending, hcore'.not_accepting, hcore'.kept⟩

/-- A fresh host has read and written nothing. -/
theorem HostRecord.fresh (clock : Nat) (lspNegotiator : LSPNegotiator) :
    HostRecord (.fresh true clock lspNegotiator) := by
  refine ⟨rfl, ⟨rfl, ?_, ?_, ?_⟩, ?_, ?_⟩
  · intro hpending
    cases hpending
  · intro pending haccepting
    cases haccepting
  · intro seq q hkept
    cases hkept
  · intro q lsp hmem
    cases hmem
  · intro hdata
    cases hdata

/-- The record says that the link was opened by a negotiation. -/
theorem HostRecord.opened_by_negotiation (h : HostRecord s) :
    OpenedByNegotiation s := by
  intro hdata
  obtain ⟨q, hmem, hoffers⟩ := h.opened (phaseOf_eq_data.mpr hdata)
  exact h.written q s.link.localLsp hmem hoffers

/-! ## The converse -/

/-- An ACK opens a host that negotiates, on the offer on record. -/
theorem onRecvNeg_ack {l : LinkLayer} (hserver : l.server = true)
    (hack : p.header.control.isAck = true) :
    (l.onRecvNeg p).status = .writable ∧ (l.onRecvNeg p).localLsp = l.negotiation.localLsp := by
  have hopened : l.onRecvNeg p = (l.advancePeerSeqFromAckable p).acceptHost := by
    unfold LinkLayer.onRecvNeg LinkLayer.onRecvNegHost
    simp [hserver, hack]
  rw [hopened]
  refine ⟨rfl, ?_⟩
  have hlsp : (l.advancePeerSeqFromAckable p).acceptHost.localLsp =
      (l.advancePeerSeqFromAckable p).negotiation.localLsp := rfl
  rw [hlsp, negotiation_advancePeerSeq]

/-- An exact ACK that fits opens a host that detects or negotiates. -/
theorem read_ack_opens {l : LinkLayer} (hserver : l.server = true)
    (hopens : OpensLink (coreOf l) p) :
    ∃ l', l.read (.packet p) = some l' ∧ l'.status.isData = true ∧
      l'.localLsp = l.negotiation.localLsp := by
  obtain ⟨hack, hsize, hphase⟩ := hopens
  have herror : ¬ l.isError = true := by
    rw [isError_iff]
    rcases hphase with hphase | hphase <;> simp [hphase]
  have hdowngrade : ¬ l.isDowngrade = true := by
    rw [isDowngrade_iff]
    rcases hphase with hphase | hphase <;> simp [hphase]
  have hfits : ¬ p.size > l.localLsp.maxLen.toNat := Nat.not_lt.mpr hsize
  obtain ⟨hwake, -⟩ := wake_spec l
  unfold LinkLayer.read LinkLayer.readPacket
  rw [if_neg herror]
  dsimp only at hwake ⊢
  rw [if_neg hdowngrade, if_neg hfits]
  generalize (if (l.server && decide (l.status = .detecting)) = true then
    l.changeState .negotiating else l) = l₁ at hwake ⊢
  have hawake : (coreOf l).wake.phase = .negotiating := by
    unfold Core.wake
    rcases hphase with hphase | hphase
    · rw [if_pos ⟨hserver, hphase⟩]
    · split
      · rfl
      · exact hphase
  have hcore : coreOf (l₁.readAck p) = (coreOf l).wake.receiveAck p := by
    rw [(readAck_spec l₁ p).1, hwake]
  have hstatus : (l₁.readAck p).status = .negotiating := by
    rw [status_negotiating_iff, hcore, Core.receiveAck_phase, hawake]
  have hserver₁ : l₁.server = true := by
    have hsame := congrArg Core.server hwake
    rw [Core.wake_server] at hsame
    exact hsame.trans hserver
  have hserver₂ : (l₁.readAck p).server = true := by
    have hsame := congrArg Core.server hcore
    rw [Core.receiveAck_server, Core.wake_server] at hsame
    exact hsame.trans hserver
  have hnegotiation : (l₁.readAck p).negotiation = l.negotiation := by
    have hsame := congrArg Core.negotiation hcore
    rw [Core.receiveAck_negotiation, Core.wake_negotiation] at hsame
    exact hsame
  obtain ⟨hwritable, hlsp⟩ := onRecvNeg_ack hserver₂ hack
  refine ⟨(l₁.readAck p).onRecvNeg p, ?_, ?_, ?_⟩
  · simp [hserver₁, hstatus]
  · rw [hwritable]
    rfl
  · rw [hlsp, hnegotiation]

/-- Reading writes nothing. -/
theorem read_writes_nothing {s' : Session} {frame : PacketOrDetect} (hevents : s.link.events = [])
    (hstep : s.step (.read frame) = some s') : s'.written = s.written := by
  obtain ⟨-, events, -, hwritten, hmoves⟩ := step_moves hevents hstep
  have hnothing : writes events = [] := by
    generalize writes events = frames at hmoves
    generalize coreOf s'.link = c' at hmoves
    cases hmoves <;> rfl
  rw [hwritten, hnothing, List.append_nil]

/-- A host whose link is open by negotiation after a call has not read an ACK too early. -/
theorem AckAfterAnswer.of_opened {call : Session.Call} (h : HostRecord s)
    (hopened : ∀ s', s.step call = some s' → OpenedByNegotiation s') : AckAfterAnswer s call := by
  rintro p rfl hopens
  obtain ⟨l', hread, hdata, hlsp⟩ := read_ack_opens h.answers.server hopens
  have hstep : s.step (.read (.packet p)) = some
      { link := { l' with events := [] },
        trace := s.trace ++ Session.received (.read (.packet p)) ++ l'.events.map .emitted } := by
    unfold Session.step Session.callLink
    dsimp only
    rw [hread]
    rfl
  obtain ⟨q, hmem, hoffers⟩ := (hopened _ hstep hdata).1.mem_written
  rw [read_writes_nothing h.events hstep] at hmem
  exact ⟨q, hmem, hlsp ▸ hoffers⟩

/-! ## Runs -/

/-- A run whose steps all read ACKs in time keeps the record. -/
theorem HostRecord.run {clock : Nat} {lspNegotiator : LSPNegotiator} {calls : List Session.Call}
    (hafter : AllSteps Session.step AckAfterAnswer (.fresh true clock lspNegotiator) calls)
    (hrun : run Session.step (.fresh true clock lspNegotiator) calls = some s) : HostRecord s :=
  run_invariant_of_allSteps HostRecord AckAfterAnswer
    (fun _ _ _ h hafter hstep => h.step hafter hstep) (.fresh clock lspNegotiator) hafter hrun

/-- **The host opens after a negotiation.** In every state of a run of a fresh host the open
link has a negotiation behind it, if and only if every exact ACK that opens the link comes
after a SYN+ACK with the offer on record. -/
theorem host_opens_after_negotiation (clock : Nat) (lspNegotiator : LSPNegotiator)
    (calls : List Session.Call) :
    (∀ pre s, pre <+: calls →
        run Session.step (.fresh true clock lspNegotiator) pre = some s → OpenedByNegotiation s) ↔
      AllSteps Session.step AckAfterAnswer (.fresh true clock lspNegotiator) calls := by
  constructor
  · induction calls using List.reverseRecOn with
    | nil => exact fun _ => trivial
    | append_singleton calls call ih =>
      intro hopened
      have hcalls := ih fun pre s hpre hrun =>
        hopened pre s (hpre.trans (List.prefix_append _ _)) hrun
      refine allSteps_append.mpr ⟨hcalls, fun s hrun => ⟨?_, fun _ _ => trivial⟩⟩
      refine AckAfterAnswer.of_opened (HostRecord.run hcalls hrun) fun s' hstep => ?_
      refine hopened (calls ++ [call]) s' (List.prefix_refl _) ?_
      exact run_append.mpr ⟨s, hrun, run_cons_eq_some.mpr ⟨s', hstep, rfl⟩⟩
  · rintro hafter pre s ⟨post, rfl⟩ hrun
    exact (HostRecord.run (allSteps_append.mp hafter).1 hrun).opened_by_negotiation

/-- A host that reads an ACK first of all is open without having offered anything. -/
theorem first_ack_opens_host :
    ¬ ∀ (clock : Nat) (lspNegotiator : LSPNegotiator) (calls : List Session.Call) (s : Session),
      run Session.step (.fresh true clock lspNegotiator) calls = some s →
        OpenedByNegotiation s := by
  intro h
  have hopened := h 0 (SimpleLSPNegotiator .bluetooth)
    [.read (.packet ⟨⟨9, .ACK, 0, 0, 0⟩, none⟩)] _ rfl rfl
  obtain ⟨q, hmem, -⟩ := hopened.1.mem_written
  cases hmem

end Catplay.Analysis.Link
