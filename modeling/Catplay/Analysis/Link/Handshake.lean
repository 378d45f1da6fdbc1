import Catplay.Analysis.Link.Calls

/-!
# The handshake of two links with the same parameters

A client and a server that both use the `SimpleLSPNegotiator` with the same parameters.
If these name a Control session, every offer is accepted: the client sends SYNs with its
first number, the server answers with SYN+ACKs that acknowledge it, and the client opens
with an empty ACK. `Handshake` describes the two ends and the frames between them until a
payload is sent.
-/

set_option autoImplicit false

namespace Catplay.Analysis.Link

open Catplay.Library Catplay.Model.Link

/-- The number of the first packet of a client. -/
def clientFirst : ModSeq8 := 0x20

/-- A parameter set with a Control session, without which no offer is accepted. -/
def HasControl (lsp : LSPPayload) : Prop :=
  lsp.sessions.any (fun f => f.sessionType = .control) = true

/-! ## The packets of a handshake -/

/-- The SYN of a client that offers `lsp`. -/
structure IsSyn (lsp : LSPPayload) (p : Packet) : Prop where
  control : p.header.control = .SYN
  seq : p.header.seq = clientFirst
  offer : LSPPayload.fromPacket p = some lsp

/-- A SYN+ACK that offers `lsp`. -/
structure IsSynAck (lsp : LSPPayload) (p : Packet) : Prop where
  control : p.header.control = LinkControl.SYN.union .ACK
  offer : LSPPayload.fromPacket p = some lsp

/-- An ACK without a payload. -/
structure IsEmptyAck (p : Packet) : Prop where
  control : p.header.control = .ACK
  empty : p.payload = none

/-- A packet that decodes to an offer has a payload. -/
theorem payload_of_offer {lsp : LSPPayload} {p : Packet}
    (h : LSPPayload.fromPacket p = some lsp) : p.payload.isSome = true := by
  unfold LSPPayload.fromPacket at h
  split at h
  · obtain ⟨payload, hpayload, -⟩ := Option.bind_eq_some_iff.mp h
    rw [hpayload]
    rfl
  · cases h

/-- An ACK offers nothing. -/
theorem fromPacket_of_ack {p : Packet} (h : p.header.control = .ACK) :
    LSPPayload.fromPacket p = none := by
  unfold LSPPayload.fromPacket
  rw [h]
  rfl

/-- The constructor of a SYN. -/
theorem isSyn_newSyn {lsp : LSPPayload} {p : Packet}
    (h : Packet.newSyn clientFirst lsp = some p) : IsSyn lsp p := by
  obtain ⟨hcontrol, hseq, hpayload⟩ := newSyn_eq_some h
  refine ⟨hcontrol, hseq, ?_⟩
  unfold LSPPayload.fromPacket
  rw [hcontrol, hpayload]
  exact LSPPayload.fromBytes_toBytes lsp

/-- The constructor of a SYN+ACK. -/
theorem isSynAck_newSynAck {ownSeq peerSeq : ModSeq8} {lsp : LSPPayload} {p : Packet}
    (h : Packet.newSynAck ownSeq peerSeq lsp = some p) : IsSynAck lsp p := by
  obtain ⟨hcontrol, -, -, hpayload⟩ := newSynAck_eq_some h
  refine ⟨hcontrol, ?_⟩
  unfold LSPPayload.fromPacket
  rw [hcontrol, hpayload]
  exact LSPPayload.fromBytes_toBytes lsp

/-- The constructor of an ACK. -/
theorem isEmptyAck_newAck {ownSeq peerSeq : ModSeq8} {sessionId : UInt8} {p : Packet}
    (h : Packet.newAck ownSeq peerSeq sessionId none = some p) : IsEmptyAck p := by
  obtain ⟨hcontrol, -, -, -, hpayload⟩ := newAck_eq_some h
  exact ⟨hcontrol, hpayload⟩

section Kinds

variable {lsp : LSPPayload} {p : Packet}

theorem IsSyn.not_ack (h : IsSyn lsp p) : ¬ p.header.control.isAck = true := by
  rw [h.control]
  decide

theorem IsSynAck.not_ack (h : IsSynAck lsp p) : ¬ p.header.control.isAck = true := by
  rw [h.control]
  decide

theorem IsSynAck.not_syn (h : IsSynAck lsp p) : ¬ p.header.control.isSyn = true := by
  rw [h.control]
  decide

theorem IsSynAck.anyAck (h : IsSynAck lsp p) : p.header.control.isAnyAck = true := by
  rw [h.control]
  decide

theorem IsEmptyAck.anyAck (h : IsEmptyAck p) : p.header.control.isAnyAck = true := by
  rw [h.control]
  decide

theorem IsEmptyAck.not_offer (h : IsEmptyAck p) :
    ¬ (p.header.control.isSynAck = true ∨ p.header.control.isSyn = true) := by
  rw [h.control]
  decide

/-- A SYN must be acknowledged. -/
theorem IsSyn.isAckable (h : IsSyn lsp p) : p.isAckable = true := isAckable_of_syn h.control

/-- A SYN+ACK must be acknowledged. -/
theorem IsSynAck.isAckable (h : IsSynAck lsp p) : p.isAckable = true :=
  isAckable_of_synAck h.control (payload_of_offer h.offer)

/-- An empty ACK need not be acknowledged. -/
theorem IsEmptyAck.not_ackable (h : IsEmptyAck p) : p.isAckable = false := by
  rw [isAckable_of_ack h.control, h.empty]
  rfl

end Kinds

/-! ## The invariant -/

/-- A frame that a client sends in the handshake, if it has `opened` or not. -/
def FromClient (lsp : LSPPayload) (opened : Bool) (c : Core) : PacketOrDetect → Prop
  | .detect => True
  | .packet p => (IsSyn lsp p ∧ c.synSent = true) ∨ (IsEmptyAck p ∧ opened = true)
  | .legacy _ => False

/-- A frame that a server sends in the handshake. -/
def FromServer (lsp : LSPPayload) (c : Core) : PacketOrDetect → Prop
  | .detect => True
  | .packet p => (IsSynAck lsp p ∨ IsEmptyAck p) ∧ p.header.ack = clientFirst ∧
      c.peerSeq = some clientFirst
  | .legacy _ => False

/-- The core of a client in the handshake. -/
structure ClientHandshake (lsp : LSPPayload) (opened : Bool) (c : Core) : Prop where
  server : c.server = false
  negotiator : c.lspNegotiator = SimpleLSPNegotiator lsp
  phase : c.phase ≠ .downgrade
  opened : c.phase = .data → opened = true
  offer : c.negotiation.localLsp = lsp
  not_offering : ∀ pending, c.negotiation.phase ≠ .offering pending
  accepted : (c.phase = .data ∨ c.negotiation.phase = .accepting true) →
    c.peerLsp = lsp ∧ c.localLsp = lsp ∧ c.peerAck = some clientFirst ∧ c.peerSeq ≠ none
  ownSeq : c.phase ≠ .error → c.ownSeq = if c.synSent then clientFirst + 1 else clientFirst
  kept : ∀ seq p, c.unacked seq = some p → seq = clientFirst ∧ IsSyn lsp p ∧ c.synSent = true
  acked : c.peerAck = none ∨
    (c.peerAck = some clientFirst ∧ c.synSent = true ∧ ∀ seq, c.unacked seq = none)

/-- A server that offers `lsp`, and has accepted nothing else. -/
structure ServerTerms (lsp : LSPPayload) (c : Core) : Prop where
  server : c.server = true
  negotiator : c.lspNegotiator = SimpleLSPNegotiator lsp
  phase : c.phase ≠ .downgrade
  offer : c.negotiation.localLsp = lsp
  not_accepting : ∀ pending, c.negotiation.phase ≠ .accepting pending
  accepted : c.negotiation.acceptedPeerLsp = none ∨ c.negotiation.acceptedPeerLsp = some lsp
  peerLsp : c.phase = .data → c.peerLsp = lsp

/-- The core of a server in the handshake with a client. -/
structure ServerHandshake (lsp : LSPPayload) (opened : Bool) (c : Core) : Prop where
  terms : ServerTerms lsp c
  opened : c.phase = .data → opened = true
  peerSeq : c.peerSeq = none ∨ (c.peerSeq = some clientFirst ∧ c.phase ≠ .detecting)
  buffer : ∀ seq, c.outOfOrder seq = none
  kept : ∀ seq p, c.unacked seq = some p → IsSynAck lsp p

/-- **The handshake** between a client `x` and a server `y`: the two cores, what each knows of
the other, and the frames under way. No CSM payload has been sent. -/
structure Handshake (lsp : LSPPayload) (opened : Bool) (x y : End) : Prop where
  client : ClientHandshake lsp opened x.core
  server : ServerHandshake lsp opened y.core
  toServer : ∀ frame ∈ y.inbox, FromClient lsp opened x.core frame
  toClient : ∀ frame ∈ x.inbox, FromServer lsp y.core frame
  heard : y.core.peerSeq ≠ none → x.core.synSent = true
  answered : opened = true ∨ x.core.peerSeq ≠ none → y.core.peerSeq = some clientFirst
  nothing_sent : x.sent = [] ∧ y.received = []

/-- With a Control session in the parameters both ends accept every offer of them. -/
theorem counterOffer_simple {lsp : LSPPayload} {c : Core} (hcontrol : HasControl lsp)
    (h : c.lspNegotiator = SimpleLSPNegotiator lsp) : c.counterOffer lsp = none := by
  unfold HasControl at hcontrol
  unfold Core.counterOffer
  rw [if_pos hcontrol, h]
  rfl

/-! ## Transmission -/

section Steps

variable {lsp : LSPPayload} {opened : Bool} {x y : End}

variable {c c' : Core} {frame : PacketOrDetect} {opened' : Bool} {next : Option PacketOrDetect}
  {taken : Option Bytes} {delivered : List Bytes}

/-- What a server knows of a client may grow. -/
theorem FromServer.mono (h : FromServer lsp c frame)
    (hpeer : c.peerSeq = some clientFirst → c'.peerSeq = some clientFirst) :
    FromServer lsp c' frame := by
  cases frame with
  | detect => trivial
  | packet p => exact ⟨h.1, h.2.1, hpeer h.2.2⟩
  | legacy body => exact h

/-- What a client has sent may grow. -/
theorem FromClient.mono
    (h : FromClient lsp opened c frame) (hsyn : c.synSent = true → c'.synSent = true)
    (hopened : opened = true → opened' = true) : FromClient lsp opened' c' frame := by
  cases frame with
  | detect => trivial
  | packet p => exact h.imp (fun h => ⟨h.1, hsyn h.2⟩) (fun h => ⟨h.1, hopened h.2⟩)
  | legacy body => exact h

/-- A client that stays as it is, or fails. -/
theorem ClientHandshake.fail (h : ClientHandshake lsp opened c) :
    ClientHandshake lsp opened { c with phase := .error } := by
  refine { h with phase := by simp, opened := by simp, accepted := ?_, ownSeq := by simp }
  rintro (hbad | hpending)
  · cases hbad
  · exact h.accepted (Or.inr hpending)

/-- The client may be said to have opened. -/
theorem ClientHandshake.mono (h : ClientHandshake lsp opened c)
    (hopened : opened = true → opened' = true) : ClientHandshake lsp opened' c :=
  { h with opened := fun hdata => hopened (h.opened hdata) }

/-- A client that transmits no payload keeps its part of the handshake. -/
theorem ClientHandshake.transmit (h : ClientHandshake lsp opened c)
    (hmove : Core.Transmits c taken c' next) (hquiet : c.phase = .data → c'.ownSeq = c.ownSeq) :
    ClientHandshake lsp (opened || decide (c'.phase = .data)) c' ∧ c'.peerSeq = c.peerSeq ∧
      (c.synSent = true → c'.synSent = true) ∧ taken = none ∧
      ∀ frame ∈ next.toList, FromClient lsp (opened || decide (c'.phase = .data)) c' frame := by
  have hserver := h.server
  have hdowngrade := h.phase
  have hmono : opened = true → (opened || decide (c'.phase = .data)) = true := by
    intro hopened
    simp [hopened]
  -- a core that goes on as it is, and one that numbers a payload
  have hstill : c' = c → next = none → taken = none →
      ClientHandshake lsp (opened || decide (c'.phase = .data)) c' ∧ c'.peerSeq = c.peerSeq ∧
      (c.synSent = true → c'.synSent = true) ∧ taken = none ∧
      ∀ frame ∈ next.toList, FromClient lsp (opened || decide (c'.phase = .data)) c' frame := by
    rintro rfl rfl rfl
    exact ⟨h.mono hmono, rfl, id, rfl, by simp⟩
  have hnumbers : c.phase = .data → c'.ownSeq ≠ c.ownSeq + 1 := by
    intro hdata hbad
    have hsame := (hquiet hdata).symm.trans hbad
    grind
  cases hmove with
  | idle => exact hstill rfl rfl rfl
  | lose _ hphase hpeer => exact absurd hpeer (h.accepted (Or.inl hphase)).2.2.2
  | fail _ herror htaken =>
    have hno : taken = none := by
      by_contra hsome
      exact hdowngrade (htaken hsome)
    exact ⟨h.fail.mono hmono, rfl, id, hno, by simp⟩
  | legacy _ hphase => exact absurd hphase hdowngrade
  | detectHost hhost _ => simp [hserver] at hhost
  | detectAccessory _ hphase =>
    exact ⟨{ h.mono hmono with }, rfl, id, rfl, by simp [FromClient]⟩
  | dropAnswer hphase hpeer =>
    have hno : c.negotiation.phase ≠ .accepting true := by
      intro hpending
      exact (h.accepted (Or.inr hpending)).2.2.2 hpeer
    have hsame : c.negotiation.takePendingTx.1 = c.negotiation := by
      unfold Negotiation.takePendingTx
      split
      · rename_i hpending
        exact absurd hpending (h.not_offering true)
      · rename_i hpending
        exact absurd hpending hno
      · rfl
    exact hstill (by rw [hsame]) rfl rfl
  | synAck _ _ _ hpending _ _ => exact absurd hpending (h.not_offering true)
  | finalAck peerSeq p hphase hpending hpeer hp =>
    have howns := h.ownSeq (by simp [hphase])
    refine ⟨⟨h.server, h.negotiator, by simp, by simp, h.offer, ?_, ?_, fun _ => howns, h.kept,
      h.acked⟩, rfl, id, rfl, fun frame hframe => ?_⟩
    · intro pending hbad
      cases hbad
    · exact fun _ => h.accepted (Or.inr hpending)
    · obtain rfl := List.mem_singleton.mp hframe
      exact Or.inr ⟨isEmptyAck_newAck hp, by simp⟩
  | syn p _ hphase hfirst hp =>
    have hown : c.ownSeq = clientFirst := by
      have howns := h.ownSeq (by simp [hphase])
      rwa [hfirst] at howns
    rw [hown, h.offer] at hp
    have hsyn := isSyn_newSyn hp
    have hnotYet : c.peerAck = none := by
      rcases h.acked with hnone | ⟨-, hsent, -⟩
      · exact hnone
      · rw [hfirst] at hsent
        cases hsent
    refine ⟨{ h.mono hmono with ownSeq := fun _ => ?_, kept := ?_, acked := Or.inl hnotYet },
      rfl, fun _ => rfl, rfl, ?_⟩
    · simp [Core.keep, hown]
    · intro seq q hq
      simp only [Core.keep, ByteMap.insert_apply] at hq
      split at hq
      · rename_i heq
        obtain rfl := Option.some.inj hq
        exact ⟨heq.trans hsyn.seq, hsyn, rfl⟩
      · obtain ⟨hseq, hold, -⟩ := h.kept seq q hq
        exact ⟨hseq, hold, rfl⟩
    · intro frame hframe
      obtain rfl := List.mem_singleton.mp hframe
      exact Or.inl ⟨hsyn, rfl⟩
  | retransmit seq kept p hphase hkept hp =>
    obtain ⟨hseq, hsyn, hsent⟩ := h.kept seq kept hkept
    obtain rfl : p = kept := by
      rcases hp with ⟨-, rfl⟩ | ⟨hnot, -⟩
      · rfl
      · exact absurd (isSyn_iff.mpr hsyn.control) hnot
    have hnotYet : c.peerAck = none := by
      rcases h.acked with hnone | ⟨-, -, hgone⟩
      · exact hnone
      · rw [hgone] at hkept
        cases hkept
    refine ⟨{ h.mono hmono with kept := fun key q hq => ?_, acked := Or.inl hnotYet }, rfl, id,
      rfl, fun frame hframe => ?_⟩
    · simp only [ByteMap.insert_apply] at hq
      split at hq
      · rename_i heq
        obtain rfl := Option.some.inj hq
        exact ⟨heq.trans hseq, hsyn, hsent⟩
      · exact h.kept key q hq
    · obtain rfl := List.mem_singleton.mp hframe
      exact Or.inl ⟨hsyn, hsent⟩
  | payload _ _ _ _ p hphase => exact absurd rfl (hnumbers hphase)
  | tooLong _ _ hphase => exact absurd rfl (hnumbers hphase)
  | emptyAck peerSeq p hphase hpeer hp =>
    refine ⟨h.mono hmono, rfl, id, rfl, ?_⟩
    intro frame hframe
    obtain rfl := List.mem_singleton.mp hframe
    exact Or.inr ⟨isEmptyAck_newAck hp, by simp [h.opened hphase]⟩

theorem ServerTerms.fail (h : ServerTerms lsp c) :
    ServerTerms lsp { c with phase := .error } :=
  { h with phase := by simp, peerLsp := by simp }

/-- Transmission keeps the terms of a server, which does not open a link by itself. -/
theorem ServerTerms.transmit (h : ServerTerms lsp c) (hmove : Core.Transmits c taken c' next) :
    ServerTerms lsp c' ∧ (c'.phase = c.phase ∨ c'.phase = .error) := by
  have hserver := h.server
  cases hmove with
  | idle | lose | legacy | detectHost | retransmit | payload | emptyAck =>
    exact ⟨{ h with }, Or.inl rfl⟩
  | fail | tooLong => exact ⟨{ h.fail with }, Or.inr rfl⟩
  | detectAccessory hclient _ | syn _ hclient _ _ _ => simp [hclient] at hserver
  | dropAnswer hphase hpeer =>
    have hdata : c.negotiation.takePendingTx.1.data = c.negotiation.data := by
      unfold Negotiation.takePendingTx
      split <;> rfl
    have hphase' : ∀ pending, c.negotiation.takePendingTx.1.phase ≠ .accepting pending := by
      intro pending
      unfold Negotiation.takePendingTx
      split
      · simp
      · rename_i hpending
        exact absurd hpending (h.not_accepting true)
      · exact h.not_accepting pending
    refine ⟨{ h with offer := ?_, not_accepting := hphase', accepted := ?_ }, Or.inl rfl⟩
    · have hoffer := h.offer
      unfold Negotiation.localLsp at hoffer ⊢
      rw [hdata]
      exact hoffer
    · have haccepted := h.accepted
      unfold Negotiation.acceptedPeerLsp at haccepted ⊢
      rw [hdata]
      exact haccepted
  | synAck peerSeq p hphase hpending hpeer hp =>
    refine ⟨{ h with offer := h.offer, not_accepting := ?_, accepted := h.accepted }, Or.inl rfl⟩
    intro pending hbad
    cases hbad
  | finalAck _ _ _ hpending _ _ => exact absurd hpending (h.not_accepting true)

/-- A server that fails. -/
theorem ServerHandshake.fail (h : ServerHandshake lsp opened c) :
    ServerHandshake lsp opened { c with phase := .error } := by
  refine { h with terms := h.terms.fail, opened := by simp, peerSeq := ?_ }
  exact h.peerSeq.imp id fun hknown => ⟨hknown.1, by simp⟩

theorem ServerHandshake.mono (h : ServerHandshake lsp opened c)
    (hopened : opened = true → opened' = true) : ServerHandshake lsp opened' c :=
  { h with opened := fun hdata => hopened (h.opened hdata) }

/-- A server knows the client by its first number, if at all. -/
theorem ServerHandshake.peer_eq (h : ServerHandshake lsp opened c) {peerSeq : ModSeq8}
    (hpeer : c.peerSeq = some peerSeq) : peerSeq = clientFirst := by
  rcases h.peerSeq with hnone | ⟨hsome, -⟩
  · rw [hnone] at hpeer
    cases hpeer
  · exact Option.some.inj (hpeer.symm.trans hsome)

/-- A server that transmits no payload keeps its part of the handshake. -/
theorem ServerHandshake.transmit (h : ServerHandshake lsp opened c)
    (hmove : Core.Transmits c taken c' next) (hquiet : c.phase = .data → c'.ownSeq = c.ownSeq) :
    ServerHandshake lsp opened c' ∧ c'.peerSeq = c.peerSeq ∧
      ∀ frame ∈ next.toList, FromServer lsp c' frame := by
  have hserver := h.terms.server
  obtain ⟨hterms, -⟩ := h.terms.transmit hmove
  have hnumbers : c.phase = .data → c'.ownSeq ≠ c.ownSeq + 1 := by
    intro hdata hbad
    have hsame := (hquiet hdata).symm.trans hbad
    grind
  cases hmove with
  | idle | lose => exact ⟨h, rfl, by simp⟩
  | fail => exact ⟨h.fail, rfl, by simp⟩
  | legacy _ hphase => exact absurd hphase h.terms.phase
  | detectHost => exact ⟨h, rfl, by simp [FromServer]⟩
  | detectAccessory hclient _ | syn _ hclient _ _ _ => simp [hclient] at hserver
  | dropAnswer hphase hpeer => exact ⟨{ h with terms := hterms }, rfl, by simp⟩
  | synAck peerSeq p hphase hpending hpeer hp =>
    have hfirst := h.peer_eq hpeer
    rw [h.terms.offer, hfirst] at hp
    have hsynAck := isSynAck_newSynAck hp
    refine ⟨{ h with terms := hterms, kept := ?_ }, rfl, fun frame hframe => ?_⟩
    · intro seq q hq
      simp only [Core.keep, ByteMap.insert_apply] at hq
      split at hq
      · obtain rfl := Option.some.inj hq
        exact hsynAck
      · exact h.kept seq q hq
    · obtain rfl := List.mem_singleton.mp hframe
      exact ⟨Or.inl hsynAck, (newSynAck_eq_some hp).2.2.1, by rw [← hfirst]; exact hpeer⟩
  | finalAck _ _ _ hpending _ _ => exact absurd hpending (h.terms.not_accepting true)
  | retransmit seq kept p hphase hkept hp =>
    have hsynAck := h.kept seq kept hkept
    obtain ⟨peerSeq, hpeer, rfl⟩ : ∃ peerSeq, c.peerSeq = some peerSeq ∧
        p = { kept with header := { kept.header with ack := peerSeq } } := by
      rcases hp with ⟨hsyn, -⟩ | ⟨-, hstamped⟩
      · exact absurd hsyn hsynAck.not_syn
      · exact hstamped
    have hsent : IsSynAck lsp { kept with header := { kept.header with ack := peerSeq } } :=
      ⟨hsynAck.control, hsynAck.offer⟩
    have hfirst := h.peer_eq hpeer
    refine ⟨{ h with terms := hterms, kept := fun key q hq => ?_ }, rfl, fun frame hframe => ?_⟩
    · simp only [ByteMap.insert_apply] at hq
      split at hq
      · obtain rfl := Option.some.inj hq
        exact hsent
      · exact h.kept key q hq
    · obtain rfl := List.mem_singleton.mp hframe
      exact ⟨Or.inl hsent, hfirst, by rw [← hfirst]; exact hpeer⟩
  | payload _ _ _ _ p hphase => exact absurd rfl (hnumbers hphase)
  | tooLong _ _ hphase => exact absurd rfl (hnumbers hphase)
  | emptyAck peerSeq p hphase hpeer hp =>
    have hfirst := h.peer_eq hpeer
    refine ⟨h, rfl, fun frame hframe => ?_⟩
    obtain rfl := List.mem_singleton.mp hframe
    refine ⟨Or.inr (isEmptyAck_newAck hp), ?_, by rw [← hfirst]; exact hpeer⟩
    rw [← hfirst]
    exact (newAck_eq_some hp).2.2.1

/-! ## Reception -/

/-- A client wakes up by itself. -/
theorem wake_client (h : c.server = false) : c.wake = c := by
  unfold Core.wake
  rw [if_neg]
  simp [h]

/-- The acknowledgement of its first packet leaves a client nothing to retransmit. -/
theorem ClientHandshake.receiveAck {p : Packet} (h : ClientHandshake lsp opened c)
    (hany : p.header.control.isAnyAck = true) (hack : p.header.ack = clientFirst)
    (hsent : c.synSent = true) :
    ClientHandshake lsp opened (c.receiveAck p) ∧
      (c.receiveAck p).peerAck = some clientFirst := by
  have hself : ModSeq8.gt clientFirst clientFirst = false := by decide
  rcases h.acked with hnone | ⟨hsome, -, -⟩
  · have hread : c.receiveAck p = { c with
        peerAck := some p.header.ack
        unacked := c.unacked.retain fun seq => ModSeq8.gt seq p.header.ack } := by
      unfold Core.receiveAck
      rw [if_pos]
      exact ⟨hany, fun peerAck hpeer => by simp [hnone] at hpeer⟩
    have hgone : ∀ seq, c.unacked.retain (fun seq => ModSeq8.gt seq p.header.ack) seq = none := by
      intro seq
      rw [ByteMap.retain_apply]
      split
      · rename_i hkeep
        by_contra hkept
        obtain ⟨q, hq⟩ := Option.ne_none_iff_exists'.mp hkept
        rw [(h.kept seq q hq).1, hack, hself] at hkeep
        cases hkeep
      · rfl
    rw [hread, hack]
    rw [hack] at hgone
    refine ⟨{ h with accepted := fun hopen => ?_, kept := ?_,
                     acked := Or.inr ⟨rfl, hsent, hgone⟩ }, rfl⟩
    · obtain ⟨hpeer, hlocal, -, hknown⟩ := h.accepted hopen
      exact ⟨hpeer, hlocal, rfl, hknown⟩
    · intro seq q hq
      dsimp only at hq
      rw [hgone] at hq
      cases hq
  · have hread : c.receiveAck p = c := by
      unfold Core.receiveAck
      rw [if_neg]
      rintro ⟨-, hnewer⟩
      have hgt := hnewer clientFirst hsome
      rw [hack, hself] at hgt
      cases hgt
    rw [hread]
    exact ⟨h, hsome⟩

/-- A client that has read a SYN+ACK accepts the offer. -/
theorem ClientHandshake.accepting {p : Packet} (h : ClientHandshake lsp opened c)
    (hsynAck : IsSynAck lsp p) (hacked : c.peerAck = some clientFirst) :
    ClientHandshake lsp opened ((c.advance p).accepting lsp) := by
  have hadvance : c.advance p = { c with peerSeq := some p.header.seq } := by
    unfold Core.advance
    rw [if_pos hsynAck.isAckable]
  rw [hadvance]
  refine { h with offer := h.offer, not_offering := ?_, accepted := fun _ => ?_ }
  · intro pending hbad
    cases hbad
  · exact ⟨rfl, h.offer, hacked, by simp [Core.accepting]⟩

/-- **A client that reads** keeps its part of the handshake, and learns of the server only from
its packets. -/
theorem ClientHandshake.read {s : Core}
    (hcontrol : HasControl lsp) (h : ClientHandshake lsp opened c) (hframe : FromServer lsp s frame)
    (hsent : s.peerSeq = some clientFirst → c.synSent = true)
    (hmove : Core.Reads c frame c' delivered) :
    ClientHandshake lsp opened c' ∧ c'.synSent = c.synSent ∧
      (c'.peerSeq = c.peerSeq ∨ s.peerSeq = some clientFirst) := by
  have hserver := h.server
  cases hmove with
  | ignore | detect => exact ⟨h, rfl, Or.inl rfl⟩
  | fail => exact ⟨h.fail, rfl, Or.inl rfl⟩
  | detectAnswered _ hphase =>
    refine ⟨{ h with phase := by simp, opened := by simp, accepted := ?_, ownSeq := fun _ => ?_ },
      rfl, Or.inl rfl⟩
    · rintro (hbad | hpending)
      · cases hbad
      · exact h.accepted (Or.inr hpending)
    · exact h.ownSeq (by simp [hphase])
  | legacy _ hphase => exact absurd hphase h.phase
  | downgraded _ hhost _ _ => simp [hserver] at hhost
  | early p _ _ =>
    obtain ⟨hkind, hack, hpeer⟩ := hframe
    have hany : p.header.control.isAnyAck = true := hkind.elim IsSynAck.anyAck IsEmptyAck.anyAck
    exact ⟨(h.receiveAck hany hack (hsent hpeer)).1, by simp, Or.inr hpeer⟩
  | negotiate p _ hphase _ hneg =>
    obtain ⟨hkind, hack, hpeer⟩ := hframe
    have hany : p.header.control.isAnyAck = true := hkind.elim IsSynAck.anyAck IsEmptyAck.anyAck
    obtain ⟨h', hacked⟩ := h.receiveAck hany hack (hsent hpeer)
    rw [wake_client hserver] at hneg
    -- an offer of the server is the one that is accepted
    have hoffer : ∀ offered, LSPPayload.fromPacket p = some offered →
        IsSynAck lsp p ∧ offered = lsp := by
      intro offered hoffered
      rcases hkind with hsynAck | hempty
      · exact ⟨hsynAck, Option.some.inj (hoffered.symm.trans hsynAck.offer)⟩
      · rw [fromPacket_of_ack hempty.control] at hoffered
        cases hoffered
    have hnegotiator : ((c.receiveAck p).advance p).lspNegotiator = SimpleLSPNegotiator lsp := by
      rw [Core.advance_lspNegotiator]
      exact h'.negotiator
    have hsyn : (c.receiveAck p).synSent = c.synSent := Core.receiveAck_synSent c p
    cases hneg with
    | ignored => exact ⟨h', hsyn, Or.inr hpeer⟩
    | unparsed hctl hlsp =>
      rcases hkind with hsynAck | hempty
      · rw [hsynAck.offer] at hlsp
        cases hlsp
      · exact absurd hctl hempty.not_offer
    | exceeded offered counter _ hlsp hcounter | counter offered counter _ hlsp hcounter _ =>
      obtain ⟨-, rfl⟩ := hoffer offered hlsp
      rw [counterOffer_simple hcontrol hnegotiator] at hcounter
      cases hcounter
    | accept offered _ _ _ hlsp _ =>
      obtain ⟨hsynAck, rfl⟩ := hoffer offered hlsp
      refine ⟨h'.accepting hsynAck hacked, ?_, Or.inr hpeer⟩
      have hsame : ((c.receiveAck p).advance p).synSent = (c.receiveAck p).synSent := by
        unfold Core.advance
        split <;> rfl
      exact hsame.trans hsyn
    | copy _ hhost | opens hhost _ => simp [hserver] at hhost
  | data p _ _ _ _ hdelivers =>
    obtain ⟨hkind, hack, hpeer⟩ := hframe
    have hany : p.header.control.isAnyAck = true := hkind.elim IsSynAck.anyAck IsEmptyAck.anyAck
    obtain ⟨h', -⟩ := h.receiveAck hany hack (hsent hpeer)
    have hno : p.header.control.isAck = true → p.payload.isSome = true → False := by
      intro hctl hpayload
      rcases hkind with hsynAck | hempty
      · exact hsynAck.not_ack hctl
      · rw [hempty.empty] at hpayload
        cases hpayload
    cases hdelivers with
    | nothing => exact ⟨h', by simp, Or.inr hpeer⟩
    | buffer _ _ hctl hpayload _ | inOrder _ _ _ _ hctl hpayload _ _ =>
      exact (hno hctl hpayload).elim

theorem ServerTerms.wake (h : ServerTerms lsp c) : ServerTerms lsp c.wake := by
  unfold Core.wake
  split
  · exact { h with phase := by simp, peerLsp := by simp }
  · exact h

theorem ServerTerms.receiveAck (h : ServerTerms lsp c) (p : Packet) :
    ServerTerms lsp (c.receiveAck p) := by
  unfold Core.receiveAck
  split
  · exact { h with }
  · exact h

/-- A server that has read an offer owes a copy of it. -/
theorem ServerTerms.copying {p : Packet} (h : ServerTerms lsp c) :
    ServerTerms lsp ((c.advance p).copying lsp) := by
  have hadvance : ServerTerms lsp (c.advance p) := by
    unfold Core.advance
    split
    · exact { h with }
    · exact h
  refine { hadvance with offer := rfl, not_accepting := ?_, accepted := Or.inr rfl,
                         peerLsp := fun _ => rfl }
  intro pending hbad
  cases hbad

/-- A server that has read an ACK opens its link on the common parameters. -/
theorem ServerTerms.opens (h : ServerTerms lsp c) : ServerTerms lsp c.opened := by
  refine { h with phase := by simp [Core.opened], offer := h.offer, not_accepting := ?_,
                  accepted := h.accepted, peerLsp := fun _ => ?_ }
  · intro pending hbad
    cases hbad
  · have hoffer := h.offer
    unfold Core.opened
    dsimp only
    rcases h.accepted with hnone | hsome
    · rw [hnone]
      exact hoffer
    · rw [hsome]
      rfl

theorem ServerHandshake.wake (h : ServerHandshake lsp opened c) :
    ServerHandshake lsp opened c.wake := by
  have hterms := h.terms.wake
  unfold Core.wake at hterms ⊢
  split
  · rename_i hasleep
    rw [if_pos hasleep] at hterms
    refine { h with terms := hterms, opened := by simp, peerSeq := ?_ }
    exact h.peerSeq.imp id fun hknown => ⟨hknown.1, by simp⟩
  · exact h

theorem ServerHandshake.receiveAck (h : ServerHandshake lsp opened c) (p : Packet) :
    ServerHandshake lsp opened (c.receiveAck p) := by
  have hterms := h.terms.receiveAck p
  unfold Core.receiveAck at hterms ⊢
  split
  · rename_i hnewer
    rw [if_pos hnewer] at hterms
    refine { h with terms := hterms, kept := fun seq q hq => ?_ }
    simp only [ByteMap.retain_apply] at hq
    split at hq
    · exact h.kept seq q hq
    · cases hq
  · exact h

/-- The first packet of a client makes it known. -/
theorem advance_syn {p : Packet} (hsyn : IsSyn lsp p) :
    c.advance p = { c with peerSeq := some clientFirst } := by
  unfold Core.advance
  rw [if_pos hsyn.isAckable, hsyn.seq]

/-- An empty ACK has no number of its own. -/
theorem advance_emptyAck {p : Packet} (hempty : IsEmptyAck p) : c.advance p = c := by
  unfold Core.advance
  rw [if_neg]
  simp [hempty.not_ackable]

/-- **A server that reads** keeps its part of the handshake, and hands nothing out. -/
theorem ServerHandshake.read {s : Core} (hcontrol : HasControl lsp)
    (h : ServerHandshake lsp opened c) (hframe : FromClient lsp opened s frame)
    (hanswered : opened = true → c.peerSeq = some clientFirst)
    (hmove : Core.Reads c frame c' delivered) :
    ServerHandshake lsp opened c' ∧ delivered = [] ∧
      (c'.peerSeq = c.peerSeq ∨ (c'.peerSeq = some clientFirst ∧ s.synSent = true)) := by
  have hserver := h.terms.server
  cases hmove with
  | ignore | detect => exact ⟨h, rfl, Or.inl rfl⟩
  | fail => exact ⟨h.fail, rfl, Or.inl rfl⟩
  | detectAnswered hclient _ | early _ hclient _ => simp [hserver] at hclient
  | legacy | downgraded => exact hframe.elim
  | negotiate p _ hphase _ hneg =>
    have h' := h.wake.receiveAck p
    have hphase' : (c.wake.receiveAck p).phase = .negotiating := by simpa using hphase
    have hpeer : (c.wake.receiveAck p).peerSeq = c.peerSeq := by simp
    -- an offer of the client is the one that is accepted
    have hoffer : ∀ offered, LSPPayload.fromPacket p = some offered →
        IsSyn lsp p ∧ s.synSent = true ∧ offered = lsp := by
      intro offered hoffered
      rcases hframe with ⟨hsyn, hsent⟩ | ⟨hempty, -⟩
      · exact ⟨hsyn, hsent, Option.some.inj (hoffered.symm.trans hsyn.offer)⟩
      · rw [fromPacket_of_ack hempty.control] at hoffered
        cases hoffered
    have hnegotiator : ((c.wake.receiveAck p).advance p).lspNegotiator =
        SimpleLSPNegotiator lsp := by
      rw [Core.advance_lspNegotiator]
      exact h'.terms.negotiator
    cases hneg with
    | ignored => exact ⟨h', rfl, Or.inl hpeer⟩
    | unparsed hctl hlsp =>
      rcases hframe with ⟨hsyn, -⟩ | ⟨hempty, -⟩
      · rw [hsyn.offer] at hlsp
        cases hlsp
      · exact absurd hctl hempty.not_offer
    | exceeded offered counter _ hlsp hcounter | counter offered counter _ hlsp hcounter _ =>
      obtain ⟨-, -, rfl⟩ := hoffer offered hlsp
      rw [counterOffer_simple hcontrol hnegotiator] at hcounter
      cases hcounter
    | accept _ hclient => simp [hserver] at hclient
    | copy offered _ _ hlsp _ =>
      obtain ⟨hsyn, hsent, rfl⟩ := hoffer offered hlsp
      have hterms := h'.terms.copying (p := p)
      rw [advance_syn hsyn] at hterms ⊢
      have hawake : (c.wake.receiveAck p).phase ≠ .detecting := by
        rw [hphase']
        decide
      exact ⟨{ h' with terms := hterms, peerSeq := Or.inr ⟨rfl, hawake⟩ }, rfl,
        Or.inr ⟨rfl, hsent⟩⟩
    | opens _ hctl =>
      rcases hframe with ⟨hsyn, -⟩ | ⟨hempty, hopened⟩
      · exact absurd hctl hsyn.not_ack
      · rw [advance_emptyAck hempty]
        refine ⟨{ h' with terms := h'.terms.opens, opened := fun _ => hopened, peerSeq := ?_ },
          rfl, Or.inl hpeer⟩
        exact Or.inr ⟨hpeer.trans (hanswered hopened), by simp [Core.opened]⟩
  | data p _ _ _ _ hdelivers =>
    have h' := h.receiveAck p
    have hno : p.header.control.isAck = true → p.payload.isSome = true → False := by
      intro hctl hpayload
      rcases hframe with ⟨hsyn, -⟩ | ⟨hempty, -⟩
      · exact hsyn.not_ack hctl
      · rw [hempty.empty] at hpayload
        cases hpayload
    cases hdelivers with
    | nothing => exact ⟨h', rfl, Or.inl (by simp)⟩
    | buffer _ _ hctl hpayload _ | inOrder _ _ _ _ hctl hpayload _ _ =>
      exact (hno hctl hpayload).elim

/-! ## The two ends -/

/-- One transmission of the client. -/
theorem Handshake.clientTransmit (h : Handshake lsp opened x y)
    (hmove : Core.Transmits x.core taken c' next)
    (hquiet : x.core.phase = .data → c'.ownSeq = x.core.ownSeq) :
    Handshake lsp (opened || decide (c'.phase = .data)) { x with core := c' }
        { y with inbox := y.inbox ++ next.toList } ∧ taken = none := by
  obtain ⟨hclient, hpeer, hsyn, htaken, hframes⟩ := h.client.transmit hmove hquiet
  have hmono : opened = true → (opened || decide (c'.phase = .data)) = true := by
    intro hopened
    simp [hopened]
  refine ⟨⟨hclient, h.server.mono hmono, fun frame hframe => ?_, h.toClient,
    fun hknown => hsyn (h.heard hknown), fun hopen => ?_, h.nothing_sent⟩, htaken⟩
  · rcases List.mem_append.mp hframe with hold | hnew
    · exact (h.toServer frame hold).mono hsyn hmono
    · exact hframes frame hnew
  · rcases hopen with hopened | hknown
    · rcases Bool.or_eq_true_iff.mp hopened with hopened | hdata
      · exact h.answered (Or.inl hopened)
      · have hknown := (hclient.accepted (Or.inl (of_decide_eq_true hdata))).2.2.2
        rw [hpeer] at hknown
        exact h.answered (Or.inr hknown)
    · dsimp only at hknown
      rw [hpeer] at hknown
      exact h.answered (Or.inr hknown)

/-- One transmission of the server. -/
theorem Handshake.serverTransmit (h : Handshake lsp opened x y) {sentY : List Bytes}
    (hmove : Core.Transmits y.core taken c' next)
    (hquiet : y.core.phase = .data → c'.ownSeq = y.core.ownSeq) :
    Handshake lsp opened { x with inbox := x.inbox ++ next.toList }
      { y with core := c', sent := sentY } := by
  obtain ⟨hserver, hpeer, hframes⟩ := h.server.transmit hmove hquiet
  refine ⟨h.client, hserver, h.toServer, fun frame hframe => ?_, ?_, ?_, h.nothing_sent⟩
  · rcases List.mem_append.mp hframe with hold | hnew
    · exact (h.toClient frame hold).mono fun hknown => hpeer.trans hknown
    · exact hframes frame hnew
  · dsimp only
    rw [hpeer]
    exact h.heard
  · dsimp only
    rw [hpeer]
    exact h.answered

/-- The client reads a frame. -/
theorem Handshake.clientRead (hcontrol : HasControl lsp) (h : Handshake lsp opened x y)
    {rest : List PacketOrDetect} {receivedX : List Bytes} (hinbox : x.inbox = frame :: rest)
    (hmove : Core.Reads x.core frame c' delivered) :
    Handshake lsp opened { x with core := c', inbox := rest, received := receivedX } y := by
  have hin : ∀ f, f ∈ frame :: rest → FromServer lsp y.core f := by
    rw [← hinbox]
    exact h.toClient
  have hsent : y.core.peerSeq = some clientFirst → x.core.synSent = true := by
    intro hknown
    exact h.heard (by simp [hknown])
  obtain ⟨hclient, hsyn, hpeer⟩ :=
    h.client.read hcontrol (hin frame List.mem_cons_self) hsent hmove
  refine ⟨hclient, h.server, fun f hf => ?_, fun f hf => hin f (List.mem_cons_of_mem _ hf), ?_, ?_,
    h.nothing_sent⟩
  · refine (h.toServer f hf).mono (fun hold => ?_) id
    dsimp only
    rw [hsyn]
    exact hold
  · dsimp only
    rw [hsyn]
    exact h.heard
  · rintro (hopened | hknown)
    · exact h.answered (Or.inl hopened)
    · rcases hpeer with hsame | hanswered
      · dsimp only at hknown
        rw [hsame] at hknown
        exact h.answered (Or.inr hknown)
      · exact hanswered

/-- The server reads a frame. -/
theorem Handshake.serverRead (hcontrol : HasControl lsp) (h : Handshake lsp opened x y)
    {rest : List PacketOrDetect}
    (hinbox : y.inbox = frame :: rest) (hmove : Core.Reads y.core frame c' delivered) :
    Handshake lsp opened x
      { y with core := c', inbox := rest, received := y.received ++ delivered } := by
  have hin : ∀ f, f ∈ frame :: rest → FromClient lsp opened x.core f := by
    rw [← hinbox]
    exact h.toServer
  obtain ⟨hserver, rfl, hpeer⟩ := h.server.read hcontrol (hin frame List.mem_cons_self)
    (fun hopened => h.answered (Or.inl hopened)) hmove
  have hgrows : y.core.peerSeq = some clientFirst → c'.peerSeq = some clientFirst := by
    intro hknown
    rcases hpeer with hsame | ⟨hnow, -⟩
    · exact hsame.trans hknown
    · exact hnow
  refine ⟨h.client, hserver, fun f hf => hin f (List.mem_cons_of_mem _ hf),
    fun f hf => (h.toClient f hf).mono hgrows, fun hknown => ?_, fun hopen => ?_, ?_⟩
  · rcases hpeer with hsame | ⟨-, hsent⟩
    · dsimp only at hknown
      rw [hsame] at hknown
      exact h.heard hknown
    · exact hsent
  · exact hgrows (h.answered hopen)
  · refine ⟨h.nothing_sent.1, ?_⟩
    dsimp only
    rw [List.append_nil]
    exact h.nothing_sent.2

/-- Frames may be lost or repeated. -/
theorem Handshake.channels (h : Handshake lsp opened x y) {toX toY : List PacketOrDetect}
    (hx : ∀ frame ∈ toX, frame ∈ x.inbox) (hy : ∀ frame ∈ toY, frame ∈ y.inbox) :
    Handshake lsp opened { x with inbox := toX } { y with inbox := toY } :=
  ⟨h.client, h.server, fun frame hframe => h.toServer frame (hy frame hframe),
    fun frame hframe => h.toClient frame (hx frame hframe), h.heard, h.answered, h.nothing_sent⟩

end Steps

/-- Repeating an entry adds nothing new. -/
theorem mem_of_mem_repeatAt {α : Type} {l : List α} {index : Nat} {a : α}
    (h : a ∈ Duplex.repeatAt l index) : a ∈ l := by
  unfold Duplex.repeatAt at h
  simp only [List.mem_append, Option.mem_toList] at h
  rcases h with (htake | hhere) | hdrop
  · exact List.mem_of_mem_take htake
  · exact List.mem_of_getElem? hhere
  · exact List.mem_of_mem_drop hdrop

end Catplay.Analysis.Link
