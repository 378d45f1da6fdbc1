import Catplay.Analysis.Link.DataPhase
import Catplay.Analysis.Link.NoControl

/-!
# Payloads around the end of a handshake

A client opens as soon as its final ACK is under way, while the server goes on negotiating
until it reads an ACK. `Carrying` describes the two ends from then on: the payloads of the
client follow a sliding window, and what the server reads while it negotiates leaves the
window alone, unless an ACK with a payload stands in for the final one. Such an ACK opens
the server and its payload is lost; no other step loses one.
-/

set_option autoImplicit false

namespace Catplay.Analysis.Link

open Catplay.Library Catplay.Library.Run Catplay.Model.Link

/-- The ends from the opening of the client on. -/
structure Carrying (lsp : LSPPayload) (x y : End) : Prop where
  flow : ∃ w, Flow 127 clientFirst lsp x y w
  known : x.core.peerSeq ≠ none
  terms : ServerTerms lsp y.core
  awake : y.core.phase ≠ .detecting
  negotiating : y.core.phase = .negotiating → y.core.peerSeq = some clientFirst
  toServer : ∀ p, .packet p ∈ y.inbox → IsSyn lsp p ∨ p.header.control = .ACK

/-- A client and a server with the same parameters and a Control session among them. -/
inductive Opening (lsp : LSPPayload) (x y : End) : Prop
  | handshake (h : Handshake lsp false x y)
  | carrying (h : Carrying lsp x y)

section Steps

variable {lsp : LSPPayload} {x y x' y' : End} {action : Duplex.Action}

/-! ## The opening of the client -/

/-- What a frame of a handshake acknowledges. -/
def handshakeAck : PacketOrDetect → Option Nat
  | .packet _ => some 0
  | _ => none

/-- **The client opens** with an empty window. -/
theorem Handshake.carrying (hwindow : lsp.maxOutgoing ≤ 127) (hids : SameSessions lsp lsp)
    (h : Handshake lsp true x y) (hdata : x.core.phase = .data) : Carrying lsp x y := by
  obtain ⟨hpeer, hlocal, hack, hknown⟩ := h.client.accepted (Or.inl hdata)
  have hanswered := h.answered (Or.inl rfl)
  have hawake : y.core.phase ≠ .detecting := by
    rcases h.server.peerSeq with hnone | ⟨-, hawake⟩
    · rw [hanswered] at hnone
      cases hnone
    · exact hawake
  obtain ⟨hsyn, hgone⟩ : x.core.synSent = true ∧ ∀ seq, x.core.unacked seq = none := by
    rcases h.client.acked with hnone | ⟨-, hsyn, hgone⟩
    · rw [hack] at hnone
      cases hnone
    · exact ⟨hsyn, hgone⟩
  have hown := h.client.ownSeq (by simp [hdata])
  rw [if_pos hsyn] at hown
  have hnothing : ∀ seq p, y.core.outOfOrder seq ≠ some p := by
    intro seq p hp
    rw [h.server.buffer] at hp
    cases hp
  refine ⟨⟨{ Window.initial Content with
    data := y.inbox.map fun _ => none, acks := x.inbox.map handshakeAck }, ?_⟩, hknown,
    h.server.terms, hawake, fun _ => hanswered, ?_⟩
  · refine ⟨Window.Inv.unused (by simp) ?_, id, ⟨Or.inl hdata, ?_, ?_, fun _ => ?_, ?_, ?_, ?_⟩,
      ⟨?_, fun seq p hp => absurd hp (hnothing seq p), fun k hk => hk.elim⟩, ?_, ?_,
      h.nothing_sent.1, h.nothing_sent.2⟩
    · intro a ha
      obtain ⟨frame, -, hframe⟩ := List.mem_map.mp ha
      cases frame <;> simp_all [handshakeAck]
    · rw [hpeer]
      exact UInt8.le_iff_toNat_le.mp hwindow
    · rw [hlocal]
      exact hids
    · rw [hown]
      rfl
    · rw [hack]
      rfl
    · intro seq p hp
      rw [hgone] at hp
      cases hp
    · intro k _ hk
      cases hk
    · rw [hanswered]
      rfl
    · rw [List.forall₂_map_right_iff, List.forall₂_same]
      rintro frame hframe p rfl hctl
      rcases h.toServer _ hframe with ⟨hsyn', -⟩ | ⟨hempty, -⟩
      · exact absurd hctl hsyn'.not_ack
      · exact hempty.empty
    · rw [List.forall₂_map_right_iff, List.forall₂_same]
      intro frame hframe
      cases frame with
      | detect | legacy _ =>
        intro p hp
        cases hp
      | packet p =>
        obtain ⟨-, hp, -⟩ := h.toClient _ hframe
        refine ⟨p, rfl, ?_⟩
        rw [hp]
        decide
  · intro p hp
    rcases h.toServer _ hp with ⟨hsyn', -⟩ | ⟨hempty, -⟩
    · exact Or.inl hsyn'
    · exact Or.inr hempty.control

/-! ## Transmission -/

/-- In the data phase nothing but ACKs is written. -/
theorem Sends.transmits_ack {size : Nat} {base : ModSeq8} {w : Window Content} {c c' : Core}
    (h : Sends size base lsp c w) {taken : Option Bytes} {next : Option PacketOrDetect}
    (hmove : Core.Transmits c taken c' next) :
    ∀ p, next = some (.packet p) → p.header.control = .ACK := by
  have hphase := h.phase
  intro p hp
  cases hmove with
  | idle | lose | fail | legacy | detectHost | detectAccessory | dropAnswer | tooLong => cases hp
  | synAck _ _ hbad | finalAck _ _ hbad | syn _ _ hbad =>
    rcases hphase with hphase | hphase <;> simp [hphase] at hbad
  | retransmit seq kept q _ hkept hq =>
    obtain rfl := PacketOrDetect.packet.inj (Option.some.inj hp)
    obtain ⟨k, -, -, hcarries⟩ := h.kept seq kept hkept
    exact (hcarries.restamp hq).control
  | payload _ _ _ _ q _ _ _ _ hq _ | emptyAck _ q _ _ hq =>
    obtain rfl := PacketOrDetect.packet.inj (Option.some.inj hp)
    exact (newAck_eq_some hq).1

/-- The number of the peer is a matter of reception. -/
theorem Carrying.clientTransmit (h : Carrying lsp x y) {taken : Option Bytes} {c' : Core}
    {next : Option PacketOrDetect} (hmove : Core.Transmits x.core taken c' next) :
    Carrying lsp { x with core := c', sent := x.sent ++ Duplex.carried x.core.peerLsp taken.toList }
      { y with inbox := y.inbox ++ next.toList } := by
  obtain ⟨w, hflow⟩ := h.flow
  obtain ⟨-, hpeer, -⟩ := transmits_stamp hmove
  refine ⟨hflow.transmit (Nat.le_refl 127) h.known hmove, ?_, h.terms, h.awake, h.negotiating, ?_⟩
  · dsimp only
    rw [hpeer]
    exact h.known
  · intro p hp
    rcases List.mem_append.mp hp with hold | hnew
    · exact h.toServer p hold
    · exact Or.inr (hflow.sender.transmits_ack hmove p (Option.mem_toList.mp hnew))

theorem Carrying.serverTransmit (h : Carrying lsp x y) (sentY : List Bytes) {taken : Option Bytes}
    {c' : Core} {next : Option PacketOrDetect} (hmove : Core.Transmits y.core taken c' next) :
    Carrying lsp { x with inbox := x.inbox ++ next.toList } { y with core := c', sent := sentY } := by
  obtain ⟨w, hflow⟩ := h.flow
  obtain ⟨-, hpeer, -⟩ := transmits_stamp hmove
  obtain ⟨hterms, hphase⟩ := h.terms.transmit hmove
  refine ⟨hflow.answer sentY hmove, h.known, hterms, ?_, fun hneg => ?_, h.toServer⟩
  · rcases hphase with hsame | herror
    · dsimp only
      rw [hsame]
      exact h.awake
    · simp [herror]
  · refine hpeer.trans (h.negotiating ?_)
    rcases hphase with hsame | herror
    · exact hsame.symm.trans hneg
    · dsimp only at hneg
      rw [herror] at hneg
      cases hneg

/-- A reconciling client. -/
theorem Opening.clientEmits (hwindow : lsp.maxOutgoing ≤ 127) (hids : SameSessions lsp lsp)
    (h : Opening lsp x y) {takens : List Bytes} {c' : Core} {frames : List PacketOrDetect}
    (hemits : Core.Emits x.core takens c' frames) :
    Opening lsp { x with core := c', sent := x.sent ++ Duplex.carried c'.peerLsp takens }
      { y with inbox := y.inbox ++ frames } := by
  obtain ⟨c, hc⟩ : ∃ c, c = x.core := ⟨_, rfl⟩
  rw [← hc] at hemits
  induction hemits generalizing x y with
  | nil c =>
    subst hc
    simpa using h
  | @cons c₁ c₂ c₃ taken next takens nexts hmove hrest ih =>
    subst hc
    have hnext : Opening lsp
        { x with core := c₂, sent := x.sent ++ Duplex.carried x.core.peerLsp taken.toList }
        { y with inbox := y.inbox ++ next.toList } := by
      cases h with
      | carrying h => exact .carrying (h.clientTransmit hmove)
      | handshake h =>
        have hnot : x.core.phase ≠ .data := fun hdata => Bool.noConfusion (h.client.opened hdata)
        obtain ⟨h', rfl⟩ := h.clientTransmit hmove fun hdata => absurd hdata hnot
        rw [Option.toList_none, carried_nil, List.append_nil]
        by_cases hopens : c₂.phase = .data
        · rw [decide_eq_true hopens, Bool.or_true] at h'
          exact .carrying (h'.carrying hwindow hids hopens)
        · rw [decide_eq_false hopens, Bool.or_false] at h'
          exact .handshake h'
    have hlater := ih hnext rfl
    have hlsp : c₃.peerLsp = x.core.peerLsp := (emits_peerLsp hrest).trans (transmits_peerLsp hmove)
    simp only [hlsp, List.append_assoc, ← carried_append] at hlater
    rw [hlsp]
    exact hlater

/-- A reconciling server. -/
theorem Opening.serverEmits (h : Opening lsp x y) (sentY : List Bytes) {takens : List Bytes}
    {c' : Core} {frames : List PacketOrDetect} (hemits : Core.Emits y.core takens c' frames) :
    Opening lsp { x with inbox := x.inbox ++ frames } { y with core := c', sent := sentY } := by
  obtain ⟨c, hc⟩ : ∃ c, c = y.core := ⟨_, rfl⟩
  rw [← hc] at hemits
  induction hemits generalizing x y with
  | nil c =>
    subst hc
    rw [List.append_nil]
    cases h with
    | handshake h => exact .handshake { h with }
    | carrying h =>
      obtain ⟨w, hflow⟩ := h.flow
      exact .carrying { h with flow := ⟨w, { hflow with }⟩ }
  | @cons c₁ c₂ c₃ taken next takens nexts hmove hrest ih =>
    subst hc
    have hnext : Opening lsp { x with inbox := x.inbox ++ next.toList }
        { y with core := c₂, sent := sentY } := by
      cases h with
      | carrying h => exact .carrying (h.serverTransmit sentY hmove)
      | handshake h =>
        have hnot : y.core.phase ≠ .data :=
          fun hdata => Bool.noConfusion (h.server.opened hdata)
        exact .handshake (h.serverTransmit hmove fun hdata => absurd hdata hnot)
    have hlater := ih hnext rfl
    rw [← List.append_assoc]
    exact hlater

/-! ## Reception -/

/-- A client in the data phase reads. -/
theorem Carrying.clientRead (h : Carrying lsp x y) {frame : PacketOrDetect}
    {rest : List PacketOrDetect} {c' : Core} {delivered receivedX : List Bytes}
    (hinbox : x.inbox = frame :: rest) (hmove : Core.Reads x.core frame c' delivered) :
    Carrying lsp { x with core := c', inbox := rest, received := receivedX } y := by
  obtain ⟨w, hflow⟩ := h.flow
  rcases hmove.of_data hflow.sender.phase with ⟨-, rfl | rfl⟩ | ⟨p, rfl, -, hdelivers⟩
  · obtain ⟨v, hskip⟩ := hflow.skipAck hinbox
    exact { h with flow := ⟨v, { hskip with }⟩ }
  · obtain ⟨v, hskip⟩ := hflow.skipAck hinbox
    have hfailed := hskip.failSender { x.core with phase := .error } rfl rfl rfl rfl rfl
    exact { h with flow := ⟨v, { hfailed with }⟩ }
  · obtain ⟨v, hread, -, -⟩ := hflow.readAck (Nat.le_refl 127) hinbox
    refine { h with flow := ⟨v, hread.deliverSender hdelivers⟩, known := ?_ }
    obtain ⟨peerSeq, outOfOrder, rfl, hknown⟩ := hdelivers.frame
    rw [Core.receiveAck_peerSeq] at hknown
    exact Option.isSome_iff_ne_none.mp (hknown (Option.isSome_iff_ne_none.mpr h.known))

/-- **The server reads.** Only an ACK with a payload that opens the link is lost. -/
theorem Carrying.serverRead (hcontrol : HasControl lsp) (h : Carrying lsp x y)
    {frame : PacketOrDetect} {rest : List PacketOrDetect} {c' : Core} {delivered : List Bytes}
    (hinbox : y.inbox = frame :: rest)
    (hopens : ∀ p, frame = .packet p → OpensLink y.core p → p.payload = none)
    (hmove : Core.Reads y.core frame c' delivered) :
    Carrying lsp x { y with core := c', inbox := rest, received := y.received ++ delivered } := by
  obtain ⟨w, hflow⟩ := h.flow
  have hserver := h.terms.server
  have hrest : ∀ p, .packet p ∈ rest → IsSyn lsp p ∨ p.header.control = .ACK := by
    intro p hp
    refine h.toServer p ?_
    rw [hinbox]
    exact List.mem_cons_of_mem _ hp
  -- a frame that is used up without a delivery
  have hskip : ∀ c, ServerTerms lsp c → c.phase ≠ .detecting → c.peerSeq = y.core.peerSeq →
      c.outOfOrder = y.core.outOfOrder → (c.phase = .negotiating → y.core.phase = .negotiating) →
      Carrying lsp x { y with core := c, inbox := rest, received := y.received ++ [] } := by
    intro c hterms hawake hpeer hbuffer hneg
    have hreceives : Receives clientFirst c w := by
      refine ⟨hpeer.trans hflow.receiver.peerSeq, ?_, ?_⟩
      · rw [hbuffer]
        exact hflow.receiver.kept
      · rw [hbuffer]
        exact hflow.receiver.buffered
    rw [List.append_nil]
    exact ⟨hflow.skip hinbox hreceives, h.known, hterms, hawake,
      fun hphase => hpeer.trans (h.negotiating (hneg hphase)), hrest⟩
  cases hmove with
  | ignore | detect => exact hskip _ h.terms h.awake rfl rfl id
  | fail => exact hskip _ h.terms.fail (by simp) rfl rfl (by simp)
  | detectAnswered hclient | early _ hclient => simp [hserver] at hclient
  | legacy _ hphase => exact absurd hphase h.terms.phase
  | downgraded _ _ hphase => exact absurd hphase h.awake
  | negotiate p _ hphase hsize hneg =>
    have hphase' : y.core.phase = .negotiating := by
      rcases Core.phase_of_wake hphase with hdetecting | hnegotiating
      · exact absurd hdetecting h.awake
      · exact hnegotiating
    have hwake : y.core.wake = y.core := by
      unfold Core.wake
      rw [if_neg]
      simp [hphase']
    rw [hwake] at hneg
    have hterms := h.terms.receiveAck p
    have hawake : (y.core.receiveAck p).phase ≠ .detecting := by
      rw [Core.receiveAck_phase]
      exact h.awake
    have hframe : IsSyn lsp p ∨ p.header.control = .ACK := by
      refine h.toServer p ?_
      rw [hinbox]
      exact List.mem_cons_self
    -- an offer comes from a SYN of the client
    have hoffer : ∀ offered, LSPPayload.fromPacket p = some offered →
        IsSyn lsp p ∧ offered = lsp := by
      intro offered hoffered
      rcases hframe with hsyn | hack
      · exact ⟨hsyn, Option.some.inj (hoffered.symm.trans hsyn.offer)⟩
      · rw [fromPacket_of_ack hack] at hoffered
        cases hoffered
    have hnegotiator : ((y.core.receiveAck p).advance p).lspNegotiator =
        SimpleLSPNegotiator lsp := by
      rw [Core.advance_lspNegotiator]
      exact hterms.negotiator
    cases hneg with
    | ignored => exact hskip _ hterms hawake (by simp) (by simp) fun _ => hphase'
    | unparsed hctl hlsp =>
      rcases hframe with hsyn | hack
      · rw [hsyn.offer] at hlsp
        cases hlsp
      · rw [hack] at hctl
        exact absurd hctl (by decide)
    | exceeded offered counter _ hlsp hcounter | counter offered counter _ hlsp hcounter _ =>
      obtain ⟨-, rfl⟩ := hoffer offered hlsp
      rw [counterOffer_simple hcontrol hnegotiator] at hcounter
      cases hcounter
    | accept _ hclient => simp [hserver] at hclient
    | copy offered _ _ hlsp _ =>
      obtain ⟨hsyn, rfl⟩ := hoffer offered hlsp
      have hcopied := hterms.copying (p := p)
      rw [advance_syn hsyn] at hcopied ⊢
      refine hskip _ hcopied hawake (h.negotiating hphase').symm ?_ fun _ => hphase'
      exact Core.receiveAck_outOfOrder _ _
    | opens _ hctl =>
      rcases hframe with hsyn | hack
      · exact absurd hctl hsyn.not_ack
      · have hempty : IsEmptyAck p := ⟨hack, hopens p rfl ⟨hctl, hsize, Or.inr hphase'⟩⟩
        rw [advance_emptyAck hempty]
        refine hskip _ hterms.opens (by simp [Core.opened]) ?_ ?_ (by simp [Core.opened])
        · exact Core.receiveAck_peerSeq _ _
        · exact Core.receiveAck_outOfOrder _ _
  | data p _ _ hdata _ hdelivers =>
    have hlsp : (y.core.receiveAck p).peerLsp = lsp := by
      rw [Core.receiveAck_peerLsp]
      exact h.terms.peerLsp hdata
    have hdeliver := hflow.deliver (Nat.le_refl 127) hinbox (hflow.receiver.receiveAck p) hlsp
      hdelivers
    have hterms := h.terms.receiveAck p
    obtain ⟨peerSeq, outOfOrder, rfl, -⟩ := hdelivers.frame
    refine ⟨hdeliver, h.known, { hterms with }, ?_, ?_, hrest⟩
    · simp [hdata]
    · simp [hdata]

/-! ## Steps -/

/-- What the client does. -/
theorem Opening.clientMoves (hwindow : lsp.maxOutgoing ≤ 127) (hids : SameSessions lsp lsp)
    (hcontrol : HasControl lsp) (h : Opening lsp x y) (hmoves : EndMoves x y action x' y') :
    Opening lsp x' y' := by
  cases hmoves with
  | enqueueCsm | advance => exact h
  | reconcile _ _ _ _ hemits => exact h.clientEmits hwindow hids hemits
  | read frame rest c' delivered hinbox hreads =>
    cases h with
    | handshake h => exact .handshake (h.clientRead hcontrol hinbox hreads)
    | carrying h => exact .carrying (h.clientRead hinbox hreads)
  | drop index =>
    cases h with
    | handshake h =>
      exact .handshake (h.channels (fun _ hframe => List.mem_of_mem_eraseIdx hframe) fun _ => id)
    | carrying h =>
      obtain ⟨w, hflow⟩ := h.flow
      exact .carrying { h with flow := hflow.dropAck index }
  | duplicate index =>
    cases h with
    | handshake h =>
      exact .handshake (h.channels (fun _ hframe => mem_of_mem_repeatAt hframe) fun _ => id)
    | carrying h =>
      obtain ⟨w, hflow⟩ := h.flow
      exact .carrying { h with flow := hflow.duplicateAck index }

/-- What the server does, as long as no payload opens its link. -/
theorem Opening.serverMoves (hcontrol : HasControl lsp) (h : Opening lsp x y)
    (hopens : action = .read → ∀ p, y.inbox.head? = some (.packet p) → OpensLink y.core p →
      p.payload = none)
    (hmoves : EndMoves y x action y' x') : Opening lsp x' y' := by
  cases hmoves with
  | enqueueCsm | advance => exact h
  | reconcile _ _ _ _ hemits => exact h.serverEmits _ hemits
  | read frame rest c' delivered hinbox hreads =>
    cases h with
    | handshake h => exact .handshake (h.serverRead hcontrol hinbox hreads)
    | carrying h =>
      refine .carrying (h.serverRead hcontrol hinbox (fun p hp => ?_) hreads)
      refine hopens rfl p ?_
      rw [hinbox, hp]
      rfl
  | drop index =>
    cases h with
    | handshake h =>
      exact .handshake (h.channels (fun _ => id) fun _ hframe => List.mem_of_mem_eraseIdx hframe)
    | carrying h =>
      obtain ⟨w, hflow⟩ := h.flow
      exact .carrying { h with flow := hflow.dropData index
                               toServer := fun p hp => h.toServer p (List.mem_of_mem_eraseIdx hp) }
  | duplicate index =>
    cases h with
    | handshake h =>
      exact .handshake (h.channels (fun _ => id) fun _ hframe => mem_of_mem_repeatAt hframe)
    | carrying h =>
      obtain ⟨w, hflow⟩ := h.flow
      exact .carrying { h with flow := hflow.duplicateData (by decide) index
                               toServer := fun p hp => h.toServer p (mem_of_mem_repeatAt hp) }

end Steps

/-! ## Runs -/

/-- A payload that the client has put into a packet has arrived, or is still kept. -/
def Unswallowed (lsp : LSPPayload) (d : Duplex) : Prop :=
  ∃ acked, acked <+: (d .b).received ∧ (d .a).sent = acked ++ outstanding lsp (d .a).link

/-- The server does not read an ACK with a payload that opens its link. -/
def OpensWithoutPayload (d : Duplex) (next : Side × Duplex.Action) : Prop :=
  next = (.b, .read) → ∀ p, (d .b).inbox.head? = some (.packet p) →
    OpensLink (coreOf (d .b).link) p → p.payload = none

instance (c : Core) (p : Packet) : Decidable (OpensLink c p) :=
  decidable_of_iff (p.header.control.isAck = true ∧ p.size ≤ c.localLsp.maxLen.toNat ∧
    (c.phase = .detecting ∨ c.phase = .negotiating))
    ⟨fun h => ⟨h.1, h.2.1, h.2.2⟩, fun h => ⟨h.ack, h.size, h.phase⟩⟩

instance (d : Duplex) (next : Side × Duplex.Action) : Decidable (OpensWithoutPayload d next) :=
  match h : (d .b).inbox.head? with
  | some (.packet p) =>
    decidable_of_iff (next = (.b, .read) → OpensLink (coreOf (d .b).link) p → p.payload = none)
      (by simp [OpensWithoutPayload, h])
  | some .detect | some (.legacy _) | none => .isTrue (by simp [OpensWithoutPayload, h])

section Runs

variable {lsp : LSPPayload} {clientClock serverClock : Nat}

/-- A fresh client and a fresh server begin the handshake. -/
theorem Handshake.fresh :
    Handshake lsp false
      (endOf (Duplex.fresh clientClock serverClock (SimpleLSPNegotiator lsp)
        (SimpleLSPNegotiator lsp) .a))
      (endOf (Duplex.fresh clientClock serverClock (SimpleLSPNegotiator lsp)
        (SimpleLSPNegotiator lsp) .b)) := by
  refine ⟨⟨rfl, rfl, nofun, nofun, rfl, nofun, ?_, fun _ => rfl, nofun, Or.inl rfl⟩,
    ⟨⟨rfl, rfl, nofun, rfl, nofun, Or.inl rfl, nofun⟩, nofun, Or.inl rfl, fun _ => rfl, nofun⟩,
    nofun, nofun, fun hknown => absurd rfl hknown, ?_, rfl, rfl⟩
  · rintro (hdata | hpending)
    · cases hdata
    · cases hpending
  · rintro (hopened | hknown)
    · cases hopened
    · exact absurd rfl hknown

/-- Without a Control session they never agree. -/
theorem Stuck.fresh :
    Stuck lsp
      (endOf (Duplex.fresh clientClock serverClock (SimpleLSPNegotiator lsp)
        (SimpleLSPNegotiator lsp) .a))
      (endOf (Duplex.fresh clientClock serverClock (SimpleLSPNegotiator lsp)
        (SimpleLSPNegotiator lsp) .b)) :=
  ⟨⟨rfl, rfl, nofun⟩, ⟨rfl, ⟨nofun, nofun⟩, nofun, nofun⟩, ⟨rfl, rfl, nofun⟩, nofun, nofun, rfl⟩

variable {d d' : Duplex} {next : Side × Duplex.Action}

/-- The step lemma with a Control session. -/
theorem Opening.step (hwindow : lsp.maxOutgoing ≤ 127) (hids : SameSessions lsp lsp)
    (hcontrol : HasControl lsp) (h : Tidy d ∧ Opening lsp (endOf (d .a)) (endOf (d .b)))
    (hopens : OpensWithoutPayload d next) (hstep : d.step next = some d') :
    Tidy d' ∧ Opening lsp (endOf (d' .a)) (endOf (d' .b)) := by
  obtain ⟨htidy, hopening⟩ := h
  obtain ⟨s, action⟩ := next
  obtain ⟨htidy', hmoves⟩ := step_endMoves htidy hstep
  refine ⟨htidy', ?_⟩
  cases s with
  | a => exact hopening.clientMoves hwindow hids hcontrol hmoves
  | b =>
    refine hopening.serverMoves hcontrol ?_ hmoves
    rintro rfl
    exact hopens rfl

/-- The step lemma without a Control session. -/
theorem Stuck.step (hnone : ¬ HasControl lsp)
    (h : Tidy d ∧ Stuck lsp (endOf (d .a)) (endOf (d .b))) (hstep : d.step next = some d') :
    Tidy d' ∧ Stuck lsp (endOf (d' .a)) (endOf (d' .b)) := by
  obtain ⟨htidy, hstuck⟩ := h
  obtain ⟨s, action⟩ := next
  obtain ⟨htidy', hmoves⟩ := step_endMoves htidy hstep
  refine ⟨htidy', ?_⟩
  cases s with
  | a => exact hstuck.clientMoves hnone hmoves
  | b => exact hstuck.serverMoves hnone hmoves

/-- Nothing is outstanding at a client that has not opened. -/
theorem Handshake.unswallowed (h : Handshake lsp false (endOf (d .a)) (endOf (d .b))) :
    Unswallowed lsp d := by
  have hsent : (d .a).sent = [] := h.nothing_sent.1
  refine ⟨[], List.nil_prefix, ?_⟩
  rw [hsent, outstanding_eq_nil fun seq p hp => (h.client.kept seq p hp).2.1.not_ack]
  rfl

theorem Stuck.unswallowed (h : Stuck lsp (endOf (d .a)) (endOf (d .b))) : Unswallowed lsp d := by
  have hsent : (d .a).sent = [] := h.nothing_sent
  refine ⟨[], List.nil_prefix, ?_⟩
  rw [hsent, outstanding_eq_nil h.negotiating.kept]
  rfl

/-- The window of an open client says what has arrived. -/
theorem Carrying.unswallowed (h : Carrying lsp (endOf (d .a)) (endOf (d .b))) :
    Unswallowed lsp d := by
  obtain ⟨w, hflow⟩ := h.flow
  have hsent : (d .a).sent = w.sent.flatMap (csmIn lsp) := hflow.sent
  have hreceived : (d .b).received = (w.sent.take w.delivered).flatMap (csmIn lsp) :=
    hflow.received
  refine ⟨(w.sent.take w.acked).flatMap (csmIn lsp), ?_, ?_⟩
  · obtain ⟨more, hmore⟩ := List.take_prefix_take_left hflow.inv.acked_le (l := w.sent)
    rw [hreceived, ← hmore, List.flatMap_append]
    exact List.prefix_append _ _
  · rw [outstanding_eq hflow.sender hflow.inv (Nat.le_refl 127), ← List.flatMap_append,
      List.take_append_drop, hsent]

/-- **The end of a handshake.** For parameters with a window of at most 127 packets and with
an id of one session type each: in every run whose server does not read an ACK with a payload
that opens its link, each CSM payload that the client has put into a packet has arrived or is
still kept, whatever the channels lose or repeat. -/
theorem payloads_survive_handshake (lsp : LSPPayload) (clientClock serverClock : Nat)
    (actions : List (Side × Duplex.Action)) (d : Duplex) (hwindow : lsp.maxOutgoing ≤ 127)
    (hids : SameSessions lsp lsp)
    (hopens : AllSteps Duplex.step OpensWithoutPayload
      (.fresh clientClock serverClock (SimpleLSPNegotiator lsp) (SimpleLSPNegotiator lsp)) actions)
    (hrun : run Duplex.step
      (.fresh clientClock serverClock (SimpleLSPNegotiator lsp) (SimpleLSPNegotiator lsp)) actions =
        some d) :
    Unswallowed lsp d := by
  have htidy : Tidy (.fresh clientClock serverClock (SimpleLSPNegotiator lsp)
      (SimpleLSPNegotiator lsp)) := by
    rintro (_ | _) <;> rfl
  by_cases hcontrol : HasControl lsp
  · obtain ⟨-, hopening⟩ := run_invariant_of_allSteps
      (fun d => Tidy d ∧ Opening lsp (endOf (d .a)) (endOf (d .b))) OpensWithoutPayload
      (fun _ _ _ hd hnext hstep => Opening.step hwindow hids hcontrol hd hnext hstep)
      ⟨htidy, .handshake .fresh⟩ hopens hrun
    cases hopening with
    | handshake h => exact h.unswallowed
    | carrying h => exact h.unswallowed
  · obtain ⟨-, hstuck⟩ := run_invariant
      (fun d => Tidy d ∧ Stuck lsp (endOf (d .a)) (endOf (d .b)))
      (fun _ _ _ hd hstep => Stuck.step hcontrol hd hstep) ⟨htidy, .fresh⟩ hrun
    exact hstuck.unswallowed

end Runs

/-- A whole handshake, and a payload that the client sends after it. -/
def openedRun : List (Side × Duplex.Action) :=
  [(.a, .reconcile 1), (.b, .read), (.b, .reconcile 5), (.a, .read), (.a, .reconcile 5),
    (.b, .read), (.b, .reconcile 5), (.a, .read), (.a, .reconcile 3), (.b, .read),
    (.a, .enqueueCsm [1]), (.a, .reconcile 3), (.b, .read)]

/-- The same, but the final ACK is lost and the payload takes its place. -/
def swallowingRun : List (Side × Duplex.Action) :=
  [(.a, .reconcile 1), (.b, .read), (.b, .reconcile 5), (.a, .read), (.a, .reconcile 5),
    (.b, .read), (.b, .reconcile 5), (.a, .read), (.a, .reconcile 3), (.b, .drop 0),
    (.a, .enqueueCsm [1]), (.a, .reconcile 3), (.b, .read), (.a, .advance 2000000000),
    (.a, .reconcile 3), (.b, .read), (.b, .reconcile 3), (.a, .read)]

/-- After a handshake in order the payload arrives. -/
theorem payloads_survive_handshake_openedRun :
    ∃ d, run Duplex.step
        (.fresh 0 0 (SimpleLSPNegotiator .bluetooth) (SimpleLSPNegotiator .bluetooth)) openedRun =
          some d ∧ (d .b).received = [[1]] ∧ Unswallowed .bluetooth d := by
  have hrun : (run Duplex.step
      (.fresh 0 0 (SimpleLSPNegotiator .bluetooth) (SimpleLSPNegotiator .bluetooth))
        openedRun).any (fun d => (d .b).received = [[1]]) = true := by
    decide
  obtain ⟨d, hd, hreceived⟩ := (Option.any_eq_true _ _).mp hrun
  exact ⟨d, hd, of_decide_eq_true hreceived,
    payloads_survive_handshake .bluetooth 0 0 openedRun d (by decide) sameSessions_bluetooth
      (by decide) hd⟩

/-- A payload that takes the place of a lost final ACK is acknowledged and never arrives. -/
theorem handshake_swallows_payload :
    ¬ ∀ (lsp : LSPPayload) (clientClock serverClock : Nat)
        (actions : List (Side × Duplex.Action)) (d : Duplex),
      run Duplex.step
        (.fresh clientClock serverClock (SimpleLSPNegotiator lsp) (SimpleLSPNegotiator lsp))
          actions = some d → Unswallowed lsp d := by
  intro h
  have hrun : (run Duplex.step
      (.fresh 0 0 (SimpleLSPNegotiator .bluetooth) (SimpleLSPNegotiator .bluetooth))
        swallowingRun).any (fun d => (d .a).sent = [[1]] ∧ (d .b).received = [] ∧
          outstanding .bluetooth (d .a).link = []) = true := by
    decide +kernel
  obtain ⟨d, hd, hstate⟩ := (Option.any_eq_true _ _).mp hrun
  obtain ⟨hsent, hreceived, hnothing⟩ := of_decide_eq_true hstate
  obtain ⟨acked, hprefix, hsplit⟩ := h .bluetooth 0 0 swallowingRun d hd
  rw [hreceived] at hprefix
  obtain rfl := List.prefix_nil.mp hprefix
  rw [hsent, hnothing] at hsplit
  cases hsplit

end Catplay.Analysis.Link
