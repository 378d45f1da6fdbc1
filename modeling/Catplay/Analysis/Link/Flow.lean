import Catplay.Library.SlidingWindow
import Catplay.Analysis.Link.Calls

/-!
# One direction of a link as a sliding window

`Flow` says that the payload packets from one end to another follow the abstract
`Window`: position `k` travels as the number `seqAt base (k + 1)`, and `d` delivered
packets are acknowledged by the number `seqAt base d`. As the window has at most 127
packets, the comparisons of the code modulo 256 decide the order of the positions. The
lemmas of this file say what each move of the sender and of the receiver does to the
flow; the channel between them may lose and repeat frames.
-/

set_option autoImplicit false

namespace Catplay.Analysis.Link

open Catplay.Library Catplay.Model.Link

/-- What a packet carries for a session: the id and the payload. -/
abbrev Content := UInt8 × Option Bytes

def contentOf (p : Packet) : Content := (p.header.sessionId, p.payload)

/-- The CSM payload among what a link with the sessions of `lsp` hands to its user. -/
def csmIn (lsp : LSPPayload) (content : Content) : List Bytes :=
  match lsp.sessions.find? fun s => s.id = content.1, content.2 with
  | some session, some payload =>
    if session.sessionType = .control ∧ payload ≠ [] then [payload] else []
  | _, _ => []

theorem csmOf_eq_csmIn (lsp : LSPPayload) (p : Packet) :
    Core.csmOf lsp p = csmIn lsp (contentOf p) := rfl

/-- An id that `lsp` gives to a session type belongs to this type for the peer. -/
def SameSessions (lsp peer : LSPPayload) : Prop :=
  ∀ sessionType session,
    (lsp.sessions.find? fun s => s.sessionType = sessionType).map (·.id) = some session →
      ∃ s, peer.sessions.find? (fun s => s.id = session) = some s ∧ s.sessionType = sessionType

/-! ## Frames and positions -/

section Frames

variable {base : ModSeq8} {sent : List Content}

/-- The packet with the item at position `k`. -/
structure Carries (base : ModSeq8) (sent : List Content) (p : Packet) (k : Nat) : Prop where
  control : p.header.control = .ACK
  seq : p.header.seq = seqAt base (k + 1)
  payload : p.payload.isSome = true
  content : sent[k]? = some (contentOf p)

/-- The position that a frame carries, if it carries a payload. -/
def CarriesData (base : ModSeq8) (sent : List Content) (frame : PacketOrDetect) :
    Option Nat → Prop
  | some k => ∃ p, frame = .packet p ∧ Carries base sent p k
  | none => ∀ p, frame = .packet p → p.header.control.isAck = true → p.payload = none

/-- The number of packets that a frame acknowledges, if it acknowledges any. -/
def CarriesAck (base : ModSeq8) (frame : PacketOrDetect) : Option Nat → Prop
  | some a => ∃ p, frame = .packet p ∧ p.header.ack = seqAt base a
  | none => ∀ p, frame = .packet p → p.header.control.isAnyAck = false

/-- An item stays where it is when more are sent. -/
theorem Carries.append {p : Packet} {k : Nat} (h : Carries base sent p k) (more : List Content) :
    Carries base (sent ++ more) p k := by
  refine { h with content := ?_ }
  obtain ⟨hlt, -⟩ := List.getElem?_eq_some_iff.mp h.content
  rw [List.getElem?_append_left hlt]
  exact h.content

theorem CarriesData.append {frame : PacketOrDetect} {slot : Option Nat}
    (h : CarriesData base sent frame slot) (more : List Content) :
    CarriesData base (sent ++ more) frame slot := by
  cases slot with
  | none => exact h
  | some k =>
    obtain ⟨p, hframe, hcarries⟩ := h
    exact ⟨p, hframe, hcarries.append more⟩

/-- A retransmitted packet carries what it carried. -/
theorem Carries.restamp {c : Core} {kept p : Packet} {k : Nat} (h : Carries base sent kept k)
    (hp : c.Restamps kept p) : Carries base sent p k := by
  rcases hp with ⟨-, rfl⟩ | ⟨-, peerSeq, -, rfl⟩
  · exact h
  · exact ⟨h.control, h.seq, h.payload, h.content⟩

end Frames

/-! ## The flow -/

section Flow

variable {size : Nat} {base : ModSeq8} {lsp : LSPPayload} {x y : End} {w : Window Content}

/-- The sender's part of a flow. -/
structure Sends (size : Nat) (base : ModSeq8) (lsp : LSPPayload) (c : Core) (w : Window Content) :
    Prop where
  phase : c.phase = .data ∨ c.phase = .error
  window : c.peerLsp.maxOutgoing.toNat ≤ size
  sessions : SameSessions c.localLsp lsp
  own : c.phase = .data → c.ownSeq = seqAt base (w.sent.length + 1)
  peerAck : c.peerAck = some (seqAt base w.acked)
  kept : ∀ seq p, c.unacked seq = some p →
    ∃ k, w.acked ≤ k ∧ seq = seqAt base (k + 1) ∧ Carries base w.sent p k
  unacked : ∀ k, w.acked ≤ k → k < w.sent.length → (c.unacked (seqAt base (k + 1))).isSome = true

/-- The receiver's part of a flow. -/
structure Receives (base : ModSeq8) (c : Core) (w : Window Content) : Prop where
  peerSeq : c.peerSeq = some (seqAt base w.delivered)
  kept : ∀ seq p, c.outOfOrder seq = some p →
    ∃ k ∈ w.buffered, seq = seqAt base (k + 1) ∧ Carries base w.sent p k
  buffered : ∀ k ∈ w.buffered, (c.outOfOrder (seqAt base (k + 1))).isSome = true

/-- **One direction.** The packets from `x` to `y`, the acknowledgements from `y` to `x`, and
the records of the CSM payloads follow the window `w`. -/
structure Flow (size : Nat) (base : ModSeq8) (lsp : LSPPayload) (x y : End) (w : Window Content) :
    Prop where
  inv : w.Inv size
  settled : w.Settled
  sender : Sends size base lsp x.core w
  receiver : Receives base y.core w
  data : List.Forall₂ (CarriesData base w.sent) y.inbox w.data
  acks : List.Forall₂ (CarriesAck base) x.inbox w.acks
  sent : x.sent = w.sent.flatMap (csmIn lsp)
  received : y.received = (w.sent.take w.delivered).flatMap (csmIn lsp)

variable {c c' : Core} {p : Packet} {frame : PacketOrDetect} {next : Option PacketOrDetect}
  {taken : Option Bytes} {rest : List PacketOrDetect}

/-- Everything kept lies within the window. -/
theorem Sends.position_lt (h : Sends size base lsp c w) {seq : UInt8}
    (hkept : c.unacked seq = some p) :
    ∃ k, w.acked ≤ k ∧ k < w.sent.length ∧ seq = seqAt base (k + 1) ∧ Carries base w.sent p k := by
  obtain ⟨k, hlow, hseq, hcarries⟩ := h.kept seq p hkept
  obtain ⟨hhigh, -⟩ := List.getElem?_eq_some_iff.mp hcarries.content
  exact ⟨k, hlow, hhigh, hseq, hcarries⟩

/-! ### Transmission -/

/-- The window check leaves room for the next position. -/
theorem Sends.room (h : Sends size base lsp c w) (hinv : w.Inv size) (hsize : size ≤ 127)
    (hphase : c.phase = .data) (hwritable : c.windowWritable) :
    w.sent.length < w.acked + size := by
  have hcheck := hwritable _ h.peerAck
  rw [h.own hphase, UInt8.le_iff_toNat_le] at hcheck
  have hacked := hinv.acked_le
  have hdelivered := hinv.delivered_le
  have hsent := hinv.sent_le
  rw [seqAt_sub base (by omega)] at hcheck
  have hwindow := h.window
  omega

/-- A payload that is put into a packet is the CSM payload taken, as the peer sees it. -/
theorem csmIn_payload (h : SameSessions c.localLsp lsp) {sessionType : SessionType}
    {session : UInt8} (hsession : c.sessionOfType sessionType = some session) {payload : Bytes}
    (hlength : payload.length + Packet.packetOverhead ≤ c.peerLsp.maxLen.toNat) :
    csmIn lsp (session, some payload) =
      Duplex.carried c.peerLsp (Core.csmOnly sessionType payload).toList := by
  obtain ⟨s, hfind, htype⟩ := h sessionType session hsession
  unfold csmIn Core.csmOnly Duplex.carried
  simp only [hfind, htype]
  by_cases hcontrol : sessionType = .control
  · by_cases hempty : payload = []
    · simp [hcontrol, hempty]
    · simp [hcontrol, hempty, hlength]
  · simp [hcontrol]

/-- A new packet. -/
theorem Flow.pushPayload (h : Flow size base lsp x y w) (hsize : size ≤ 127)
    (hphase : x.core.phase = .data) (hwritable : x.core.windowWritable) {sessionType : SessionType}
    {session : UInt8} {payload : Bytes} (hsession : x.core.sessionOfType sessionType = some session)
    (hcontrol : p.header.control = .ACK) (hseq : p.header.seq = x.core.ownSeq)
    (hcontent : contentOf p = (session, some payload))
    (hlength : payload.length + Packet.packetOverhead ≤ x.core.peerLsp.maxLen.toNat) :
    Flow size base lsp
      { x with core := x.core.keep p, sent :=
          x.sent ++ Duplex.carried x.core.peerLsp (Core.csmOnly sessionType payload).toList }
      { y with inbox := y.inbox ++ [.packet p] }
      { w with sent := w.sent ++ [contentOf p], data := w.data ++ [some w.sent.length] } := by
  have hroom := h.sender.room h.inv hsize hphase hwritable
  have hown := h.sender.own hphase
  have hacked := h.inv.acked_le
  have hdelivered := h.inv.delivered_le
  have hcarries : Carries base (w.sent ++ [contentOf p]) p w.sent.length := by
    refine ⟨hcontrol, by rw [hseq, hown], ?_, by simp⟩
    have hpayload : p.payload = some payload := congrArg Prod.snd hcontent
    rw [hpayload]
    rfl
  have hpushed := h.inv.push (contentOf p) hroom
  have hput := hpushed.put (k := w.sent.length) (by dsimp only; omega) (by simp)
  refine ⟨hput, h.settled, ?_, ?_, ?_, h.acks, ?_, ?_⟩
  · refine ⟨h.sender.phase, h.sender.window, h.sender.sessions, fun _ => ?_, h.sender.peerAck,
      ?_, ?_⟩
    · rw [List.length_append, List.length_singleton, seqAt_succ base (w.sent.length + 1), ← hown]
      rfl
    · intro seq q hq
      simp only [Core.keep, ByteMap.insert_apply] at hq
      split at hq
      · rename_i heq
        obtain rfl := Option.some.inj hq
        exact ⟨w.sent.length, by dsimp only; omega, by rw [heq, hcarries.seq], hcarries⟩
      · obtain ⟨k, hlow, hk, hold⟩ := h.sender.kept seq q hq
        exact ⟨k, hlow, hk, hold.append _⟩
    · intro k hlow hhigh
      simp only [Core.keep, ByteMap.insert_apply]
      split
      · rfl
      · rename_i hne
        refine h.sender.unacked k hlow ?_
        rw [List.length_append, List.length_singleton] at hhigh
        refine Nat.lt_of_le_of_ne (Nat.le_of_lt_succ hhigh) ?_
        rintro rfl
        exact hne hcarries.seq.symm
  · refine ⟨h.receiver.peerSeq, fun seq q hq => ?_, h.receiver.buffered⟩
    obtain ⟨k, hk, hseq', hold⟩ := h.receiver.kept seq q hq
    exact ⟨k, hk, hseq', hold.append _⟩
  · refine List.rel_append (h.data.imp fun _ _ hold => hold.append _) ?_
    exact .cons ⟨p, rfl, hcarries⟩ .nil
  · rw [List.flatMap_append, h.sent, hcontent]
    simp only [List.flatMap_cons, List.flatMap_nil, List.append_nil]
    rw [csmIn_payload h.sender.sessions hsession hlength]
  · dsimp only
    rw [h.received, List.take_append_of_le_length hdelivered]

/-- A packet of the window is sent again. -/
theorem Flow.resend (h : Flow size base lsp x y w) {seq : UInt8} {kept : Packet}
    (hkept : x.core.unacked seq = some kept) (hp : x.core.Restamps kept p) :
    ∃ slot, Flow size base lsp
      { x with core := { x.core with unacked := x.core.unacked.insert seq p } }
      { y with inbox := y.inbox ++ [.packet p] } { w with data := w.data ++ [slot] } := by
  obtain ⟨k, hlow, hhigh, hseq, hcarries⟩ := h.sender.position_lt hkept
  have hcarries' := hcarries.restamp hp
  refine ⟨some k, h.inv.put hlow hhigh, h.settled, ?_, { h.receiver with }, ?_, h.acks, h.sent,
    h.received⟩
  · refine { h.sender with kept := ?_, unacked := ?_ }
    · intro seq' q hq
      simp only [ByteMap.insert_apply] at hq
      split at hq
      · rename_i heq
        obtain rfl := Option.some.inj hq
        exact ⟨k, hlow, by rw [heq, hseq], hcarries'⟩
      · exact h.sender.kept seq' q hq
    · intro j hj hj'
      simp only [ByteMap.insert_apply]
      split
      · rfl
      · exact h.sender.unacked j hj hj'
  · exact List.rel_append h.data (.cons ⟨p, rfl, hcarries'⟩ .nil)

/-- A frame without a payload. -/
theorem Flow.blank (h : Flow size base lsp x y w) (hframe : CarriesData base w.sent frame none) :
    Flow size base lsp x { y with inbox := y.inbox ++ [frame] } { w with data := w.data ++ [none] } :=
  ⟨h.inv.blank, h.settled, { h.sender with }, { h.receiver with },
    List.rel_append h.data (.cons hframe .nil), h.acks, h.sent, h.received⟩

/-- The sender fails. -/
theorem Flow.failSender (h : Flow size base lsp x y w) (c' : Core) (hphase : c'.phase = .error)
    (hpeer : c'.peerLsp = x.core.peerLsp) (hlocal : c'.localLsp = x.core.localLsp)
    (hack : c'.peerAck = x.core.peerAck) (hkept : c'.unacked = x.core.unacked) :
    Flow size base lsp { x with core := c' } y w := by
  refine ⟨h.inv, h.settled, ⟨Or.inr hphase, ?_, ?_, ?_, ?_, ?_, ?_⟩, h.receiver, h.data, h.acks,
    h.sent, h.received⟩
  · dsimp only
    rw [hpeer]
    exact h.sender.window
  · dsimp only
    rw [hlocal]
    exact h.sender.sessions
  · intro hdata
    rw [hphase] at hdata
    cases hdata
  · exact hack.trans h.sender.peerAck
  · dsimp only
    rw [hkept]
    exact h.sender.kept
  · dsimp only
    rw [hkept]
    exact h.sender.unacked

/-- **The sender transmits.** -/
theorem Flow.transmit (h : Flow size base lsp x y w) (hsize : size ≤ 127)
    (hknown : x.core.peerSeq ≠ none) (hmove : Core.Transmits x.core taken c' next) :
    ∃ w', Flow size base lsp
      { x with core := c', sent := x.sent ++ Duplex.carried x.core.peerLsp taken.toList }
      { y with inbox := y.inbox ++ next.toList } w' := by
  have hphase := h.sender.phase
  have hnone : x.sent ++ Duplex.carried x.core.peerLsp (none : Option Bytes).toList = x.sent := by
    simp
  cases hmove with
  | idle =>
    rw [hnone]
    refine ⟨w, ?_⟩
    simpa using h
  | lose _ _ hpeer => exact absurd hpeer hknown
  | fail _ herror htaken =>
    have hno : taken = none := by
      by_contra hsome
      have hdown := htaken hsome
      rcases hphase with hphase | hphase <;> simp [hphase] at hdown
    subst hno
    rw [hnone]
    refine ⟨w, ?_⟩
    have hfailed := h.failSender { x.core with phase := .error } rfl rfl rfl rfl rfl
    simpa using hfailed
  | legacy _ hbad | detectHost _ hbad | detectAccessory _ hbad | dropAnswer hbad _
  | synAck _ _ hbad _ _ _ | finalAck _ _ hbad _ _ _ | syn _ _ hbad _ _ =>
    rcases hphase with hphase | hphase <;> simp [hphase] at hbad
  | retransmit seq kept p _ hkept hp =>
    rw [hnone]
    obtain ⟨slot, hflow⟩ := h.resend hkept hp
    exact ⟨_, hflow⟩
  | payload sessionType payload peerSeq session p hdata hwindow hpeer hsession hp hlen =>
    obtain ⟨hcontrol, hseq, -, hid, hpayload⟩ := newAck_eq_some hp
    have hcontent : contentOf p = (session, some payload) := by
      rw [contentOf, hid, hpayload]
    have hlength : payload.length + Packet.packetOverhead ≤ x.core.peerLsp.maxLen.toNat := by
      simpa [Packet.size, hpayload] using hlen
    exact ⟨_, h.pushPayload hsize hdata hwindow hsession hcontrol hseq hcontent hlength⟩
  | tooLong sessionType payload hdata hlen =>
    have hnot : Duplex.carried x.core.peerLsp (Core.csmOnly sessionType payload).toList = [] := by
      unfold Core.csmOnly Duplex.carried
      split
      · have hlong : ¬ payload.length + Packet.packetOverhead ≤ x.core.peerLsp.maxLen.toNat :=
          Nat.not_le.mpr hlen
        simp [hlong]
      · rfl
    rw [hnot, List.append_nil]
    refine ⟨w, ?_⟩
    have hfailed := h.failSender
      { x.core with ownSeq := x.core.ownSeq + 1, phase := .error } rfl rfl rfl rfl rfl
    simpa using hfailed
  | emptyAck peerSeq p _ _ hp =>
    rw [hnone]
    obtain ⟨-, -, -, -, hpayload⟩ := newAck_eq_some hp
    have hcarries : CarriesData base w.sent (.packet p) none := by
      intro q hq _
      obtain rfl := PacketOrDetect.packet.inj hq
      exact hpayload
    exact ⟨_, h.blank hcarries⟩

/-! ### Acknowledgement -/

/-- A SYN acknowledges nothing. -/
theorem isAnyAck_of_syn (h : p.header.control = .SYN) :
    p.header.control.isAnyAck = false := by
  rw [h]
  decide

/-- Everything that is transmitted acknowledges the last packet received, but for a SYN. -/
theorem transmits_stamp (hmove : Core.Transmits c taken c' next) :
    (∀ p, next = some (.packet p) →
        p.header.control.isAnyAck = false ∨ c.peerSeq = some p.header.ack) ∧
      c'.peerSeq = c.peerSeq ∧ c'.outOfOrder = c.outOfOrder := by
  cases hmove with
  | idle | lose _ _ _ | fail _ _ _ | legacy _ _ | detectHost _ _ | detectAccessory _ _
  | dropAnswer _ _ | tooLong _ _ _ _ => exact ⟨by simp, rfl, rfl⟩
  | synAck peerSeq p _ _ hpeer hp =>
    refine ⟨fun q hq => ?_, rfl, rfl⟩
    obtain rfl := PacketOrDetect.packet.inj (Option.some.inj hq)
    exact Or.inr (hpeer.trans (congrArg some (newSynAck_eq_some hp).2.2.1.symm))
  | finalAck peerSeq p _ _ hpeer hp | emptyAck peerSeq p _ hpeer hp =>
    refine ⟨fun q hq => ?_, rfl, rfl⟩
    obtain rfl := PacketOrDetect.packet.inj (Option.some.inj hq)
    exact Or.inr (hpeer.trans (congrArg some (newAck_eq_some hp).2.2.1.symm))
  | payload _ _ peerSeq _ p _ _ hpeer _ hp _ =>
    refine ⟨fun q hq => ?_, rfl, rfl⟩
    obtain rfl := PacketOrDetect.packet.inj (Option.some.inj hq)
    exact Or.inr (hpeer.trans (congrArg some (newAck_eq_some hp).2.2.1.symm))
  | syn p _ _ _ hp =>
    refine ⟨fun q hq => ?_, rfl, rfl⟩
    obtain rfl := PacketOrDetect.packet.inj (Option.some.inj hq)
    exact Or.inl (isAnyAck_of_syn (newSyn_eq_some hp).1)
  | retransmit seq kept p _ _ hp =>
    refine ⟨fun q hq => ?_, rfl, rfl⟩
    obtain rfl := PacketOrDetect.packet.inj (Option.some.inj hq)
    rcases hp with ⟨hsyn, rfl⟩ | ⟨-, peerSeq, hpeer, rfl⟩
    · exact Or.inl (isAnyAck_of_syn (isSyn_iff.mp hsyn))
    · exact Or.inr hpeer

/-- **The receiver transmits.** What it writes acknowledges what it has. -/
theorem Flow.answer (h : Flow size base lsp x y w) (sentY : List Bytes)
    (hmove : Core.Transmits y.core taken c' next) :
    ∃ w', Flow size base lsp { x with inbox := x.inbox ++ next.toList }
      { y with core := c', sent := sentY } w' := by
  obtain ⟨hstamp, hpeer, hbuffer⟩ := transmits_stamp hmove
  have hreceiver : Receives base c' w := by
    refine ⟨hpeer.trans h.receiver.peerSeq, ?_, ?_⟩
    · rw [hbuffer]
      exact h.receiver.kept
    · rw [hbuffer]
      exact h.receiver.buffered
  cases next with
  | none =>
    refine ⟨w, ⟨h.inv, h.settled, h.sender, hreceiver, h.data, ?_, h.sent, h.received⟩⟩
    simpa using h.acks
  | some frame =>
    have hslot : CarriesAck base frame (some w.delivered) ∨ CarriesAck base frame none := by
      cases frame with
      | detect | legacy _ =>
        refine Or.inr fun p hp => ?_
        cases hp
      | packet p =>
        rcases hstamp p rfl with hnone | hack
        · refine Or.inr fun q hq => ?_
          obtain rfl := PacketOrDetect.packet.inj hq
          exact hnone
        · exact Or.inl ⟨p, rfl, Option.some.inj (hack.symm.trans h.receiver.peerSeq)⟩
    rcases hslot with hslot | hslot
    · exact ⟨_, ⟨h.inv.writeAck, h.settled, { h.sender with }, { hreceiver with }, h.data,
        List.rel_append h.acks (.cons hslot .nil), h.sent, h.received⟩⟩
    · exact ⟨_, ⟨h.inv.blankAck, h.settled, { h.sender with }, { hreceiver with }, h.data,
        List.rel_append h.acks (.cons hslot .nil), h.sent, h.received⟩⟩

/-! ### Reception -/

/-- The buffered packets that follow are taken over. -/
theorem drains_flow {next : ModSeq8} {qs : List Packet} (hsize : size ≤ 127)
    (hdrains : Core.Drains c next c' qs) (hinv : w.Inv size) (hreceives : Receives base c w)
    (hnext : next = seqAt base (w.delivered + 1)) :
    ∃ delivered buffered, Window.Inv size { w with delivered, buffered } ∧
      Window.Settled { w with delivered, buffered } ∧
      Receives base c' { w with delivered, buffered } ∧
      w.sent.take delivered = w.sent.take w.delivered ++ qs.map contentOf := by
  induction hdrains generalizing w with
  | stop c next hempty =>
    refine ⟨w.delivered, w.buffered, hinv, fun hwaiting => ?_, hreceives, by simp⟩
    have hsome := hreceives.buffered _ hwaiting
    rw [← hnext, hempty] at hsome
    cases hsome
  | more c c' next q qs hq hrest ih =>
    obtain ⟨k, hk, hseq, hcarries⟩ := hreceives.kept next q hq
    obtain ⟨hlow, hhigh⟩ := hinv.buffered_range k hk
    have hacked := hinv.acked_le
    have hsent := hinv.sent_le
    have hkd : k = w.delivered := by
      have hinj := seqAt_inj base (i := k + 1) (j := w.delivered + 1) (by omega)
        (by omega) (hseq.symm.trans hnext)
      omega
    subst hkd
    have hreceives' : Receives base
        { c with outOfOrder := c.outOfOrder.remove next, peerSeq := some next }
        { w with delivered := w.delivered + 1, buffered := w.buffered \ {w.delivered} } := by
      refine ⟨congrArg some hnext, fun seq p hp => ?_, fun j hj => ?_⟩
      · simp only [ByteMap.remove_apply] at hp
        split at hp
        · cases hp
        · rename_i hne
          obtain ⟨j, hj, hjseq, hjcarries⟩ := hreceives.kept seq p hp
          refine ⟨j, ⟨hj, ?_⟩, hjseq, hjcarries⟩
          rintro rfl
          exact hne (hjseq.trans hnext.symm)
      · obtain ⟨hj, hne⟩ := hj
        simp only [ByteMap.remove_apply]
        split
        · rename_i heq
          obtain ⟨hjlow, hjhigh⟩ := hinv.buffered_range j hj
          have hinj := seqAt_inj base (i := j + 1) (j := w.delivered + 1) (by omega)
            (by omega) (heq.trans hnext)
          exact absurd (Nat.succ_inj.mp hinj) hne
        · exact hreceives.buffered j hj
    obtain ⟨delivered, buffered, hinv', hsettled', hreceives'', htake⟩ :=
      ih (hinv.release hk) hreceives' (by rw [hnext, ← seqAt_succ])
    refine ⟨delivered, buffered, hinv', hsettled', hreceives'', ?_⟩
    rw [htake]
    dsimp only
    rw [List.take_add_one, hcarries.content, List.map_cons]
    simp

/-- A frame at the receiver is used up without an effect on this direction. -/
theorem Flow.skip (h : Flow size base lsp x y w) (hinbox : y.inbox = frame :: rest)
    (hreceives : Receives base c' w) :
    ∃ w', Flow size base lsp x { y with core := c', inbox := rest } w' := by
  have hdata := h.data
  rw [hinbox] at hdata
  obtain ⟨slot, slots, -, hrest, hslots⟩ := List.forall₂_cons_left_iff.mp hdata
  have hsub : slots.Sublist w.data := by
    rw [hslots]
    exact List.sublist_cons_self slot slots
  exact ⟨_, ⟨h.inv.loseData hsub, h.settled, { h.sender with }, { hreceives with }, hrest, h.acks,
    h.sent, h.received⟩⟩

/-- The packet with the position `k` among the frames of the flow is the one expected when
its number is. -/
theorem Window.Inv.position_of_seq (h : w.Inv size) (hsize : size ≤ 127) {k : Nat}
    (hk : some k ∈ w.data) (hseq : seqAt base (k + 1) = seqAt base (w.delivered + 1)) :
    k = w.delivered := by
  have hhigh := h.data_sent k hk
  have hlate := (h.data_late k hk).1
  have hacked := h.acked_le
  have hsent := h.sent_le
  have hinj := seqAt_inj base (i := k + 1) (j := w.delivered + 1) (by omega) (by omega)
    hseq
  omega

/-- **The receiver takes a packet.** -/
theorem Flow.deliver (h : Flow size base lsp x y w) (hsize : size ≤ 127) {delivered : List Bytes}
    (hinbox : y.inbox = .packet p :: rest) (hreceives : Receives base c w) (hlsp : c.peerLsp = lsp)
    (hmove : Core.Delivers c p c' delivered) :
    ∃ w', Flow size base lsp x
      { y with core := c', inbox := rest, received := y.received ++ delivered } w' := by
  have hdata := h.data
  rw [hinbox] at hdata
  obtain ⟨slot, slots, hslot, hrest, hslots⟩ := List.forall₂_cons_left_iff.mp hdata
  -- a frame with a payload is at some position
  have hposition : p.header.control.isAck = true → p.payload.isSome = true →
      ∃ k, slot = some k ∧ Carries base w.sent p k := by
    intro hctl hpayload
    cases slot with
    | none =>
      have hempty := hslot p rfl hctl
      rw [hempty] at hpayload
      cases hpayload
    | some k =>
      obtain ⟨q, hq, hcarries⟩ := hslot
      obtain rfl := PacketOrDetect.packet.inj hq
      exact ⟨k, rfl, hcarries⟩
  have hpeer := hreceives.peerSeq
  cases hmove with
  | nothing =>
    rw [List.append_nil]
    exact h.skip hinbox hreceives
  | buffer peerSeq hseqs hctl hpayload hcmp =>
    obtain ⟨k, rfl, hcarries⟩ := hposition hctl hpayload
    obtain rfl := Option.some.inj (hseqs.symm.trans hpeer)
    have hk : some k ∈ w.data := by simp [hslots]
    have hlate := (h.inv.data_late k hk).1
    have hearly : w.delivered < k := by
      by_contra hnot
      rw [hcarries.seq, ← seqAt_succ] at hcmp
      exact partialCmp_seqAt_ne_gt base (by omega) (by omega) hcmp
    rw [List.append_nil]
    refine ⟨_, ⟨h.inv.hold hslots (Nat.le_of_lt hearly), ?_, { h.sender with }, ?_, hrest, h.acks,
      h.sent, h.received⟩⟩
    · rintro (heq | hwaiting)
      · dsimp only at heq
        omega
      · exact h.settled hwaiting
    · refine ⟨hpeer, fun seq q hq => ?_, fun j hj => ?_⟩
      · simp only [ByteMap.insert_apply] at hq
        split at hq
        · rename_i heq
          obtain rfl := Option.some.inj hq
          exact ⟨k, Set.mem_insert k _, by rw [heq, hcarries.seq], hcarries⟩
        · obtain ⟨j, hj, hjseq, hjcarries⟩ := hreceives.kept seq q hq
          exact ⟨j, Set.mem_insert_of_mem k hj, hjseq, hjcarries⟩
      · simp only [ByteMap.insert_apply]
        split
        · rfl
        · rename_i hne
          rcases hj with rfl | hj
          · exact absurd hcarries.seq.symm hne
          · exact hreceives.buffered j hj
  | inOrder _ peerSeq qs hseqs hctl hpayload hseq hdrain =>
    obtain ⟨k, rfl, hcarries⟩ := hposition hctl hpayload
    obtain rfl := Option.some.inj (hseqs.symm.trans hpeer)
    have hk : some k ∈ w.data := by simp [hslots]
    have hnext : p.header.seq = seqAt base (w.delivered + 1) := hseq.trans (seqAt_succ base _).symm
    obtain rfl := Window.Inv.position_of_seq h.inv hsize hk (hcarries.seq.symm.trans hnext)
    have haccepted := h.inv.accept hslots h.settled
    have hreceives' : Receives base { c with peerSeq := some p.header.seq }
        { w with delivered := w.delivered + 1, data := slots } :=
      ⟨congrArg some hnext, hreceives.kept, hreceives.buffered⟩
    obtain ⟨delivered', buffered, hinv', hsettled', hreceives'', htake⟩ :=
      drains_flow hsize hdrain haccepted hreceives' (by rw [hnext, ← seqAt_succ])
    refine ⟨_, ⟨hinv', hsettled', { h.sender with }, hreceives'', hrest, h.acks, h.sent, ?_⟩⟩
    dsimp only at htake ⊢
    rw [htake, List.take_add_one, hcarries.content, h.received, hlsp]
    simp only [List.flatMap_append, List.append_assoc, List.flatMap_cons, List.flatMap_map,
      Option.toList_some, List.flatMap_nil, List.append_nil]
    rfl

/-- **The sender reads an acknowledgement.** -/
theorem Flow.readAck (h : Flow size base lsp x y w) (hsize : size ≤ 127)
    (hinbox : x.inbox = .packet p :: rest) :
    ∃ w', Flow size base lsp { x with core := x.core.receiveAck p, inbox := rest } y w' ∧
      w'.sent = w.sent ∧ w'.delivered = w.delivered := by
  have hacks := h.acks
  rw [hinbox] at hacks
  obtain ⟨slot, slots, hslot, hrest, hslots⟩ := List.forall₂_cons_left_iff.mp hacks
  have hsub : slots.Sublist w.acks := by
    rw [hslots]
    exact List.sublist_cons_self slot slots
  unfold Core.receiveAck
  split
  · rename_i hnewer
    obtain ⟨hany, hgt⟩ := hnewer
    cases slot with
    | none =>
      have hno := hslot p rfl
      rw [hno] at hany
      cases hany
    | some a =>
      obtain ⟨q, hq, hack⟩ := hslot
      obtain rfl := PacketOrDetect.packet.inj hq
      have ha : some a ∈ w.acks := by simp [hslots]
      obtain ⟨hlow, hhigh⟩ := h.inv.acks_range a ha
      have hdelivered := h.inv.delivered_le
      have hsent := h.inv.sent_le
      refine ⟨_, ⟨h.inv.readAck hslots, h.settled, ?_, { h.receiver with }, h.data, hrest, h.sent,
        h.received⟩, rfl, rfl⟩
      have hretained : ∀ k, w.acked ≤ k → k < w.sent.length →
          ModSeq8.gt (seqAt base (k + 1)) p.header.ack = decide (a ≤ k) := by
        intro k hk hk'
        rw [hack, gt_seqAt (by omega) (by omega)]
        exact decide_eq_decide.mpr Nat.lt_succ_iff
      refine { h.sender with peerAck := congrArg some hack, kept := ?_, unacked := ?_ }
      · intro seq r hr
        simp only [ByteMap.retain_apply] at hr
        split at hr
        · rename_i hkeep
          obtain ⟨k, hklow, hkhigh, hseq, hcarries⟩ := h.sender.position_lt hr
          rw [hseq, hretained k hklow hkhigh] at hkeep
          exact ⟨k, of_decide_eq_true hkeep, hseq, hcarries⟩
        · cases hr
      · intro k hk hk'
        have hold : w.acked ≤ k := Nat.le_trans hlow hk
        simp only [ByteMap.retain_apply]
        rw [if_pos (by rw [hretained k hold hk']; exact decide_eq_true hk)]
        exact h.sender.unacked k hold hk'
  · exact ⟨_, ⟨h.inv.loseAcks hsub, h.settled, { h.sender with }, { h.receiver with }, h.data, hrest,
      h.sent, h.received⟩, rfl, rfl⟩

/-- A frame at the sender is used up without an effect on this direction. -/
theorem Flow.skipAck (h : Flow size base lsp x y w) (hinbox : x.inbox = frame :: rest) :
    ∃ w', Flow size base lsp { x with inbox := rest } y w' := by
  have hacks := h.acks
  rw [hinbox] at hacks
  obtain ⟨slot, slots, -, hrest, hslots⟩ := List.forall₂_cons_left_iff.mp hacks
  have hsub : slots.Sublist w.acks := by
    rw [hslots]
    exact List.sublist_cons_self slot slots
  exact ⟨_, ⟨h.inv.loseAcks hsub, h.settled, { h.sender with }, { h.receiver with }, h.data, hrest,
    h.sent, h.received⟩⟩

/-! ### The channels -/

/-- Corresponding lists correspond after the same entry of each is lost. -/
theorem forall₂_eraseIdx {α β : Type*} {R : α → β → Prop} {l : List α} {m : List β}
    (h : List.Forall₂ R l m) (index : Nat) :
    List.Forall₂ R (l.eraseIdx index) (m.eraseIdx index) := by
  rw [List.eraseIdx_eq_take_drop_succ, List.eraseIdx_eq_take_drop_succ]
  exact List.rel_append (List.forall₂_take index h) (List.forall₂_drop (index + 1) h)

/-- Repeating an entry in place. -/
theorem repeatAt_cases {α : Type} (l : List α) (index : Nat) :
    (l.length ≤ index ∧ Duplex.repeatAt l index = l) ∨
      ∃ a, l[index]? = some a ∧ l = l.take index ++ a :: l.drop (index + 1) ∧
        Duplex.repeatAt l index = l.take index ++ a :: a :: l.drop (index + 1) := by
  unfold Duplex.repeatAt
  by_cases hlt : index < l.length
  · have hdrop : l.drop index = l[index] :: l.drop (index + 1) := List.drop_eq_getElem_cons hlt
    refine Or.inr ⟨l[index], List.getElem?_eq_getElem hlt, ?_, ?_⟩
    · rw [← hdrop, List.take_append_drop]
    · rw [List.getElem?_eq_getElem hlt, Option.toList_some, List.append_assoc,
        List.singleton_append, hdrop]
  · have hge := Nat.le_of_not_lt hlt
    refine Or.inl ⟨hge, ?_⟩
    rw [List.getElem?_eq_none hge, List.take_of_length_le hge, List.drop_of_length_le hge]
    simp

/-- Corresponding lists correspond after the same entry of each is repeated. -/
theorem forall₂_repeatAt {α β : Type} {R : α → β → Prop} {l : List α} {m : List β}
    (h : List.Forall₂ R l m) (index : Nat) :
    List.Forall₂ R (Duplex.repeatAt l index) (Duplex.repeatAt m index) := by
  have hlength := h.length_eq
  rcases repeatAt_cases l index with ⟨hge, heq⟩ | ⟨a, ha, -, heq⟩ <;>
    rcases repeatAt_cases m index with ⟨hge', heq'⟩ | ⟨b, hb, -, heq'⟩
  · rw [heq, heq']
    exact h
  · obtain ⟨hlt, -⟩ := List.getElem?_eq_some_iff.mp hb
    omega
  · obtain ⟨hlt, -⟩ := List.getElem?_eq_some_iff.mp ha
    omega
  · obtain ⟨hlt, rfl⟩ := List.getElem?_eq_some_iff.mp ha
    obtain ⟨hlt', rfl⟩ := List.getElem?_eq_some_iff.mp hb
    have hhere := h.get hlt hlt'
    rw [heq, heq']
    exact List.rel_append (List.forall₂_take index h)
      (.cons hhere (.cons hhere (List.forall₂_drop (index + 1) h)))

/-- A frame under way to the receiver is lost. -/
theorem Flow.dropData (h : Flow size base lsp x y w) (index : Nat) :
    ∃ w', Flow size base lsp x { y with inbox := y.inbox.eraseIdx index } w' :=
  ⟨_, ⟨h.inv.loseData (List.eraseIdx_sublist w.data index), h.settled, { h.sender with },
    { h.receiver with }, forall₂_eraseIdx h.data index, h.acks, h.sent, h.received⟩⟩

/-- A frame under way to the sender is lost. -/
theorem Flow.dropAck (h : Flow size base lsp x y w) (index : Nat) :
    ∃ w', Flow size base lsp { x with inbox := x.inbox.eraseIdx index } y w' :=
  ⟨_, ⟨h.inv.loseAcks (List.eraseIdx_sublist w.acks index), h.settled, { h.sender with },
    { h.receiver with }, h.data, forall₂_eraseIdx h.acks index, h.sent, h.received⟩⟩

/-- A frame under way to the receiver is repeated. -/
theorem Flow.duplicateData (h : Flow size base lsp x y w) (hpos : 0 < size) (index : Nat) :
    ∃ w', Flow size base lsp x { y with inbox := Duplex.repeatAt y.inbox index } w' := by
  refine ⟨{ w with data := Duplex.repeatAt w.data index }, ⟨?_, h.settled, { h.sender with },
    { h.receiver with }, forall₂_repeatAt h.data index, h.acks, h.sent, h.received⟩⟩
  rcases repeatAt_cases w.data index with ⟨-, heq⟩ | ⟨slot, -, hsplit, heq⟩
  · rw [heq]
    exact h.inv
  · rw [heq]
    exact h.inv.repeatData hpos hsplit

/-- A frame under way to the sender is repeated. -/
theorem Flow.duplicateAck (h : Flow size base lsp x y w) (index : Nat) :
    ∃ w', Flow size base lsp { x with inbox := Duplex.repeatAt x.inbox index } y w' := by
  refine ⟨{ w with acks := Duplex.repeatAt w.acks index }, ⟨?_, h.settled, { h.sender with },
    { h.receiver with }, h.data, forall₂_repeatAt h.acks index, h.sent, h.received⟩⟩
  rcases repeatAt_cases w.acks index with ⟨-, heq⟩ | ⟨slot, -, hsplit, heq⟩
  · rw [heq]
    exact h.inv
  · rw [heq]
    exact h.inv.repeatAck hsplit

end Flow

end Catplay.Analysis.Link
