import Catplay.Analysis.Link.Handshake

/-!
# Two links without a Control session

If the common parameters of a client and a server name no Control session, each end
counters every offer with the same parameters. So no offer is ever accepted, and the
client never opens: `Stuck` holds in every run.
-/

set_option autoImplicit false

namespace Catplay.Analysis.Link

open Catplay.Library Catplay.Model.Link

/-- A packet that offers nothing but `lsp`. -/
def OffersOnly (lsp : LSPPayload) (p : Packet) : Prop :=
  ∀ offered, LSPPayload.fromPacket p = some offered → offered = lsp

/-- A core that offers nothing but `lsp`. -/
structure Insists (lsp : LSPPayload) (c : Core) : Prop where
  negotiator : c.lspNegotiator = SimpleLSPNegotiator lsp
  offer : c.negotiation.localLsp = lsp
  kept : ∀ seq p, c.unacked seq = some p → OffersOnly lsp p

/-- A client that goes on negotiating. -/
structure Negotiating (c : Core) : Prop where
  server : c.server = false
  phase : c.phase ≠ .data ∧ c.phase ≠ .downgrade
  not_accepting : ∀ pending, c.negotiation.phase ≠ .accepting pending
  kept : ∀ seq p, c.unacked seq = some p → ¬ p.header.control.isAck = true

section Insists

variable {lsp : LSPPayload} {c c' : Core}

theorem IsSynAck.offersOnly {p : Packet} (h : IsSynAck lsp p) : OffersOnly lsp p :=
  fun _ hoffered => Option.some.inj (hoffered.symm.trans h.offer)

/-- An ACK offers nothing. -/
theorem offersOnly_of_ack {p : Packet} (h : p.header.control = .ACK) : OffersOnly lsp p := by
  intro offered hoffered
  rw [fromPacket_of_ack h] at hoffered
  cases hoffered

/-- A retransmitted packet offers what it offered. -/
theorem OffersOnly.restamp {kept p : Packet} (h : OffersOnly lsp kept) (hp : c.Restamps kept p) :
    OffersOnly lsp p := by
  rcases hp with ⟨-, rfl⟩ | ⟨-, peerSeq, -, rfl⟩
  · exact h
  · exact h

theorem Insists.insert (h : Insists lsp c) {key : UInt8} {p : Packet} (hp : OffersOnly lsp p) :
    ∀ seq q, c.unacked.insert key p seq = some q → OffersOnly lsp q := by
  intro seq q hq
  rw [ByteMap.insert_apply] at hq
  split at hq
  · obtain rfl := Option.some.inj hq
    exact hp
  · exact h.kept seq q hq

/-- Without a Control session every offer is countered. -/
theorem counterOffer_insists (hnone : ¬ HasControl lsp)
    (h : c.lspNegotiator = SimpleLSPNegotiator lsp) : c.counterOffer lsp = some lsp := by
  unfold HasControl at hnone
  unfold Core.counterOffer
  rw [if_neg hnone, h]
  rfl

/-- A core that insists transmits its own offer only. -/
theorem Insists.transmit {taken : Option Bytes} {next : Option PacketOrDetect}
    (h : Insists lsp c) (hmove : Core.Transmits c taken c' next) :
    Insists lsp c' ∧ ∀ p, next = some (.packet p) → OffersOnly lsp p := by
  cases hmove with
  | idle | lose | fail | legacy | detectHost | detectAccessory | tooLong =>
    exact ⟨{ h with }, by simp⟩
  | dropAnswer _ _ =>
    refine ⟨{ h with offer := ?_ }, by simp⟩
    have hoffer := h.offer
    unfold Negotiation.localLsp Negotiation.takePendingTx at *
    split <;> exact hoffer
  | synAck peerSeq p _ _ _ hp =>
    rw [h.offer] at hp
    have honly := (isSynAck_newSynAck hp).offersOnly
    refine ⟨⟨h.negotiator, h.offer, h.insert honly⟩, fun q hq => ?_⟩
    obtain rfl := PacketOrDetect.packet.inj (Option.some.inj hq)
    exact honly
  | syn p _ _ _ hp =>
    rw [h.offer] at hp
    obtain ⟨hcontrol, -, hpayload⟩ := newSyn_eq_some hp
    have honly : OffersOnly lsp p := by
      intro offered hoffered
      unfold LSPPayload.fromPacket at hoffered
      rw [hcontrol, hpayload] at hoffered
      exact Option.some.inj (hoffered.symm.trans (LSPPayload.fromBytes_toBytes lsp))
    refine ⟨⟨h.negotiator, h.offer, h.insert honly⟩, fun q hq => ?_⟩
    obtain rfl := PacketOrDetect.packet.inj (Option.some.inj hq)
    exact honly
  | retransmit seq kept p _ hkept hp =>
    have honly := (h.kept seq kept hkept).restamp hp
    refine ⟨⟨h.negotiator, h.offer, h.insert honly⟩, fun q hq => ?_⟩
    obtain rfl := PacketOrDetect.packet.inj (Option.some.inj hq)
    exact honly
  | finalAck _ p _ _ _ hp =>
    refine ⟨⟨h.negotiator, h.offer, h.kept⟩, fun q hq => ?_⟩
    obtain rfl := PacketOrDetect.packet.inj (Option.some.inj hq)
    exact offersOnly_of_ack (newAck_eq_some hp).1
  | payload _ _ _ _ p _ _ _ _ hp _ =>
    have honly : OffersOnly lsp p := offersOnly_of_ack (newAck_eq_some hp).1
    refine ⟨⟨h.negotiator, h.offer, h.insert honly⟩, fun q hq => ?_⟩
    obtain rfl := PacketOrDetect.packet.inj (Option.some.inj hq)
    exact honly
  | emptyAck _ p _ _ hp =>
    refine ⟨h, fun q hq => ?_⟩
    obtain rfl := PacketOrDetect.packet.inj (Option.some.inj hq)
    exact offersOnly_of_ack (newAck_eq_some hp).1

theorem Insists.receiveAck (h : Insists lsp c) (p : Packet) : Insists lsp (c.receiveAck p) := by
  unfold Core.receiveAck
  split
  · refine ⟨h.negotiator, h.offer, fun seq q hq => ?_⟩
    simp only [ByteMap.retain_apply] at hq
    split at hq
    · exact h.kept seq q hq
    · cases hq
  · exact h

theorem Insists.wake (h : Insists lsp c) : Insists lsp c.wake := by
  unfold Core.wake
  split
  · exact { h with }
  · exact h

theorem Insists.advance (h : Insists lsp c) (p : Packet) : Insists lsp (c.advance p) := by
  unfold Core.advance
  split
  · exact { h with }
  · exact h

/-- A core that insists and reads an offer of `lsp` goes on insisting. -/
theorem Insists.read {frame : PacketOrDetect} {delivered : List Bytes} (hnone : ¬ HasControl lsp)
    (h : Insists lsp c) (hframe : ∀ p, frame = .packet p → OffersOnly lsp p)
    (hmove : Core.Reads c frame c' delivered) : Insists lsp c' := by
  cases hmove with
  | ignore | detect | legacy => exact h
  | fail | detectAnswered | downgraded => exact { h with }
  | early p => exact h.receiveAck p
  | negotiate p _ _ _ hneg =>
    have h' := h.wake.receiveAck p
    have hadvance := h'.advance p
    -- whatever is offered is countered with the same
    have hcounter : ∀ offered, LSPPayload.fromPacket p = some offered →
        ((c.wake.receiveAck p).advance p).counterOffer offered = some lsp := by
      intro offered hoffered
      obtain rfl := hframe p rfl offered hoffered
      exact counterOffer_insists hnone hadvance.negotiator
    cases hneg with
    | ignored => exact h'
    | unparsed => exact hadvance
    | exceeded _ counter _ hlsp => exact ⟨hadvance.negotiator, h'.offer, hadvance.kept⟩
    | counter offered counter _ hlsp hcounter' =>
      rw [hcounter offered hlsp] at hcounter'
      obtain rfl := Option.some.inj hcounter'
      exact ⟨hadvance.negotiator, rfl, hadvance.kept⟩
    | accept offered _ _ _ hlsp hcounter' | copy offered _ _ hlsp hcounter' =>
      rw [hcounter offered hlsp] at hcounter'
      cases hcounter'
    | opens => exact ⟨hadvance.negotiator, hadvance.offer, hadvance.kept⟩
  | data p _ _ _ _ hdelivers =>
    obtain ⟨peerSeq, outOfOrder, rfl, -⟩ := hdelivers.frame
    exact { h.receiveAck p with }

/-- A client that negotiates takes no payload and does not open. -/
theorem Negotiating.transmit {taken : Option Bytes} {next : Option PacketOrDetect}
    (h : Negotiating c) (hmove : Core.Transmits c taken c' next) :
    Negotiating c' ∧ taken = none := by
  have hserver := h.server
  obtain ⟨hdata, hdowngrade⟩ := h.phase
  have hinsert : ∀ {key : UInt8} {p : Packet}, ¬ p.header.control.isAck = true →
      ∀ seq q, c.unacked.insert key p seq = some q → ¬ q.header.control.isAck = true := by
    intro key p hp seq q hq
    rw [ByteMap.insert_apply] at hq
    split at hq
    · obtain rfl := Option.some.inj hq
      exact hp
    · exact h.kept seq q hq
  cases hmove with
  | idle | detectAccessory => exact ⟨{ h with }, rfl⟩
  | lose _ hphase | payload _ _ _ _ _ hphase | tooLong _ _ hphase | emptyAck _ _ hphase =>
    exact absurd hphase hdata
  | legacy _ hphase => exact absurd hphase hdowngrade
  | fail _ _ htaken =>
    refine ⟨⟨h.server, by simp, h.not_accepting, h.kept⟩, ?_⟩
    by_contra hsome
    exact hdowngrade (htaken hsome)
  | detectHost hhost => simp [hserver] at hhost
  | dropAnswer =>
    refine ⟨⟨h.server, h.phase, fun pending => ?_, h.kept⟩, rfl⟩
    unfold Negotiation.takePendingTx
    split
    · simp
    · rename_i hpending
      exact absurd hpending (h.not_accepting true)
    · exact h.not_accepting pending
  | synAck _ p _ _ _ hp =>
    have hnot : ¬ p.header.control.isAck = true := (isSynAck_newSynAck hp).not_ack
    exact ⟨⟨h.server, h.phase, by simp [Negotiation.transitionStart], hinsert hnot⟩, rfl⟩
  | finalAck _ _ _ hpending => exact absurd hpending (h.not_accepting true)
  | syn p _ _ _ hp =>
    have hnot : ¬ p.header.control.isAck = true := by
      rw [(newSyn_eq_some hp).1]
      decide
    exact ⟨⟨h.server, h.phase, h.not_accepting, hinsert hnot⟩, rfl⟩
  | retransmit seq kept p _ hkept hp =>
    have hcontrol : p.header.control = kept.header.control := by
      rcases hp with ⟨-, rfl⟩ | ⟨-, _, -, rfl⟩ <;> rfl
    have hnot : ¬ p.header.control.isAck = true := by
      rw [hcontrol]
      exact h.kept seq kept hkept
    exact ⟨⟨h.server, h.phase, h.not_accepting, hinsert hnot⟩, rfl⟩

theorem Negotiating.receiveAck (h : Negotiating c) (p : Packet) :
    Negotiating (c.receiveAck p) := by
  unfold Core.receiveAck
  split
  · refine ⟨h.server, h.phase, h.not_accepting, fun seq q hq => ?_⟩
    simp only [ByteMap.retain_apply] at hq
    split at hq
    · exact h.kept seq q hq
    · cases hq
  · exact h

theorem Negotiating.advance (h : Negotiating c) (p : Packet) : Negotiating (c.advance p) := by
  unfold Core.advance
  split
  · exact { h with }
  · exact h

/-- A client that insists and reads an offer of `lsp` goes on negotiating. -/
theorem Negotiating.read {frame : PacketOrDetect} {delivered : List Bytes}
    (hnone : ¬ HasControl lsp) (h : Negotiating c) (hinsists : Insists lsp c)
    (hframe : ∀ p, frame = .packet p → OffersOnly lsp p)
    (hmove : Core.Reads c frame c' delivered) : Negotiating c' := by
  have hserver := h.server
  obtain ⟨hdata, hdowngrade⟩ := h.phase
  cases hmove with
  | ignore | detect | legacy => exact h
  | fail | detectAnswered => exact ⟨h.server, by simp, h.not_accepting, h.kept⟩
  | downgraded _ hhost => simp [hserver] at hhost
  | early p => exact h.receiveAck p
  | negotiate p _ hphase _ hneg =>
    rw [wake_client hserver] at hneg hphase
    have hreceived := h.receiveAck p
    have hadvanced := hreceived.advance p
    have hnegotiator := ((hinsists.receiveAck p).advance p).negotiator
    cases hneg with
    | ignored => exact hreceived
    | unparsed => exact hadvanced
    | exceeded => exact ⟨hadvanced.server, by simp, hreceived.not_accepting, hadvanced.kept⟩
    | counter =>
      refine ⟨hadvanced.server, hadvanced.phase, ?_, hadvanced.kept⟩
      simp [Core.offering, Negotiation.transitionOffering]
    | accept offered _ _ _ hlsp hcounter =>
      obtain rfl := hframe p rfl offered hlsp
      rw [counterOffer_insists hnone hnegotiator] at hcounter
      cases hcounter
    | copy _ hhost | opens hhost => simp [hserver] at hhost
  | data p _ _ hphase => exact absurd hphase hdata

/-- A server that insists emits its own offer only. -/
theorem Insists.emits {takens : List Bytes} {frames : List PacketOrDetect} (h : Insists lsp c)
    (hmoves : Core.Emits c takens c' frames) :
    Insists lsp c' ∧ ∀ p, .packet p ∈ frames → OffersOnly lsp p := by
  induction hmoves with
  | nil => exact ⟨h, by simp⟩
  | cons hmove hrest ih =>
    obtain ⟨h₂, hnext⟩ := h.transmit hmove
    obtain ⟨h₃, hnexts⟩ := ih h₂
    refine ⟨h₃, fun p hp => ?_⟩
    rcases List.mem_append.mp hp with hp | hp
    · exact hnext p (Option.mem_toList.mp hp)
    · exact hnexts p hp

/-- A client that negotiates takes no payload. -/
theorem Negotiating.emits {takens : List Bytes} {frames : List PacketOrDetect} (h : Negotiating c)
    (hmoves : Core.Emits c takens c' frames) : Negotiating c' ∧ takens = [] := by
  induction hmoves with
  | nil => exact ⟨h, rfl⟩
  | cons hmove hrest ih =>
    obtain ⟨h₂, rfl⟩ := h.transmit hmove
    obtain ⟨h₃, rfl⟩ := ih h₂
    exact ⟨h₃, rfl⟩

end Insists

/-- **No agreement** between a client `x` and a server `y` without a Control session. -/
structure Stuck (lsp : LSPPayload) (x y : End) : Prop where
  client : Insists lsp x.core
  negotiating : Negotiating x.core
  server : Insists lsp y.core
  toServer : ∀ p, .packet p ∈ y.inbox → OffersOnly lsp p
  toClient : ∀ p, .packet p ∈ x.inbox → OffersOnly lsp p
  nothing_sent : x.sent = []

section Stuck

variable {lsp : LSPPayload} {x y x' y' : End} {action : Duplex.Action}

/-- What the client does keeps it from agreeing. -/
theorem Stuck.clientMoves (hnone : ¬ HasControl lsp) (h : Stuck lsp x y)
    (hmoves : EndMoves x y action x' y') : Stuck lsp x' y' := by
  cases hmoves with
  | enqueueCsm | advance => exact h
  | reconcile _ c' takens frames hemits =>
    obtain ⟨hinsists, honly⟩ := h.client.emits hemits
    obtain ⟨hnegotiating, rfl⟩ := h.negotiating.emits hemits
    refine { h with client := hinsists, negotiating := hnegotiating, toServer := ?_,
                    nothing_sent := ?_ }
    · intro p hp
      rcases List.mem_append.mp hp with hp | hp
      · exact h.toServer p hp
      · exact honly p hp
    · dsimp only
      rw [h.nothing_sent, carried_nil, List.append_nil]
  | read frame rest c' delivered hinbox hreads =>
    have hframe : ∀ p, frame = .packet p → OffersOnly lsp p := by
      rintro p rfl
      refine h.toClient p ?_
      rw [hinbox]
      exact List.mem_cons_self
    refine { h with client := h.client.read hnone hframe hreads,
                    negotiating := h.negotiating.read hnone h.client hframe hreads,
                    toClient := fun p hp => h.toClient p ?_ }
    rw [hinbox]
    exact List.mem_cons_of_mem _ hp
  | drop index => exact { h with toClient := fun p hp => h.toClient p (List.mem_of_mem_eraseIdx hp) }
  | duplicate index =>
    exact { h with toClient := fun p hp => h.toClient p (mem_of_mem_repeatAt hp) }

/-- What the server does keeps it from agreeing. -/
theorem Stuck.serverMoves (hnone : ¬ HasControl lsp) (h : Stuck lsp x y)
    (hmoves : EndMoves y x action y' x') : Stuck lsp x' y' := by
  cases hmoves with
  | enqueueCsm | advance => exact h
  | reconcile _ c' takens frames hemits =>
    obtain ⟨hinsists, honly⟩ := h.server.emits hemits
    refine { h with server := hinsists, toClient := ?_ }
    intro p hp
    rcases List.mem_append.mp hp with hp | hp
    · exact h.toClient p hp
    · exact honly p hp
  | read frame rest c' delivered hinbox hreads =>
    have hframe : ∀ p, frame = .packet p → OffersOnly lsp p := by
      rintro p rfl
      refine h.toServer p ?_
      rw [hinbox]
      exact List.mem_cons_self
    refine { h with server := h.server.read hnone hframe hreads,
                    toServer := fun p hp => h.toServer p ?_ }
    rw [hinbox]
    exact List.mem_cons_of_mem _ hp
  | drop index => exact { h with toServer := fun p hp => h.toServer p (List.mem_of_mem_eraseIdx hp) }
  | duplicate index =>
    exact { h with toServer := fun p hp => h.toServer p (mem_of_mem_repeatAt hp) }

end Stuck

end Catplay.Analysis.Link
