import Catplay.Analysis.Link.Flow

/-!
# Reliable delivery in the data phase

Two links that both carry data and agree on their numbers stay in step: each direction
follows a sliding window, whatever the channels lose or repeat and whatever the users and
the clock do. The CSM payloads arrive in order, without loss or repetition, and a packet
that the sender no longer keeps has been taken over by the receiver.
-/

set_option autoImplicit false

namespace Catplay.Analysis.Link

open Catplay.Library Catplay.Library.Run Catplay.Model.Link

section Steps

variable {size : Nat} {base : ModSeq8} {lsp : LSPPayload} {x y : End} {w : Window Content}

/-- Transmission leaves the parameters of a core alone. -/
theorem transmits_peerLsp {c c' : Core} {taken : Option Bytes} {next : Option PacketOrDetect}
    (hmove : Core.Transmits c taken c' next) : c'.peerLsp = c.peerLsp := by
  cases hmove <;> rfl

theorem emits_peerLsp {c c' : Core} {takens : List Bytes} {frames : List PacketOrDetect}
    (hmoves : Core.Emits c takens c' frames) : c'.peerLsp = c.peerLsp := by
  induction hmoves with
  | nil => rfl
  | cons hmove hrest ih => exact ih.trans (transmits_peerLsp hmove)

/-- A sender that has delivered a packet. -/
theorem Flow.deliverSender {c c' : Core} {p : Packet} {delivered : List Bytes}
    {inbox : List PacketOrDetect} {received : List Bytes}
    (h : Flow size base lsp { x with core := c, inbox } y w)
    (hmove : Core.Delivers c p c' delivered) :
    Flow size base lsp { x with core := c', inbox, received } y w := by
  obtain ⟨peerSeq, outOfOrder, rfl, -⟩ := hmove.frame
  exact { h with sender := { h.sender with } }

/-- Payloads are carried one after the other. -/
theorem carried_append (lsp : LSPPayload) (first second : List Bytes) :
    Duplex.carried lsp (first ++ second) = Duplex.carried lsp first ++ Duplex.carried lsp second :=
  List.filter_append ..

/-- **Reconciling** keeps both flows. -/
theorem flows_reconcile {size' : Nat} {base' : ModSeq8} {lsp' : LSPPayload} {w' : Window Content}
    (hsize : size ≤ 127) {takens : List Bytes} {c' : Core} {frames : List PacketOrDetect}
    (hmoves : Core.Emits x.core takens c' frames)
    (hout : Flow size base lsp x y w) (hin : Flow size' base' lsp' y x w') :
    ∃ v v', Flow size base lsp
        { x with core := c', sent := x.sent ++ Duplex.carried x.core.peerLsp takens }
        { y with inbox := y.inbox ++ frames } v ∧
      Flow size' base' lsp' { y with inbox := y.inbox ++ frames }
        { x with core := c', sent := x.sent ++ Duplex.carried x.core.peerLsp takens } v' := by
  obtain ⟨c, hc⟩ : ∃ c, c = x.core := ⟨_, rfl⟩
  rw [← hc] at hmoves
  induction hmoves generalizing x y w w' with
  | nil c =>
    subst hc
    refine ⟨w, w', ?_, ?_⟩
    · simpa using hout
    · simpa using hin
  | @cons c₁ c₂ c₃ taken next takens nexts hmove hrest ih =>
    subst hc
    have hknown : x.core.peerSeq ≠ none := by
      rw [hin.receiver.peerSeq]
      simp
    have hpeer := transmits_peerLsp hmove
    obtain ⟨v, hout'⟩ := hout.transmit hsize hknown hmove
    obtain ⟨v', hin'⟩ :=
      hin.answer (x.sent ++ Duplex.carried x.core.peerLsp taken.toList) hmove
    obtain ⟨u, u', hout'', hin''⟩ := ih hout' hin' rfl
    simp only [hpeer, List.append_assoc, ← carried_append] at hout'' hin''
    exact ⟨u, u', hout'', hin''⟩

/-- The acknowledgement of a packet does not concern what its reader receives. -/
theorem Receives.receiveAck {c : Core} (h : Receives base c w) (p : Packet) :
    Receives base (c.receiveAck p) w := by
  constructor
  · rw [Core.receiveAck_peerSeq]
    exact h.peerSeq
  · rw [Core.receiveAck_outOfOrder]
    exact h.kept
  · rw [Core.receiveAck_outOfOrder]
    exact h.buffered

/-- **Reading** keeps both flows. -/
theorem flows_read {size' : Nat} {base' : ModSeq8} {w' : Window Content}
    (hsize : size ≤ 127) (hsize' : size' ≤ 127) {frame : PacketOrDetect}
    {rest : List PacketOrDetect} {c' : Core} {delivered : List Bytes}
    (hinbox : x.inbox = frame :: rest) (hmove : Core.Reads x.core frame c' delivered)
    (hout : Flow size base lsp x y w) (hin : Flow size' base' x.core.peerLsp y x w') :
    ∃ v v', Flow size base lsp
        { x with core := c', inbox := rest, received := x.received ++ delivered } y v ∧
      Flow size' base' x.core.peerLsp y
        { x with core := c', inbox := rest, received := x.received ++ delivered } v' ∧
      c'.peerLsp = x.core.peerLsp := by
  rcases hmove.of_data hout.sender.phase with ⟨rfl, hsame⟩ | ⟨p, rfl, -, hdelivers⟩
  · rw [List.append_nil]
    obtain ⟨v, hskip⟩ := hout.skipAck hinbox
    rcases hsame with rfl | rfl
    · obtain ⟨v', hskip'⟩ := hin.skip hinbox hin.receiver
      exact ⟨v, v', hskip, hskip', rfl⟩
    · have hfailed : Receives base' { x.core with phase := .error } w' := { hin.receiver with }
      obtain ⟨v', hskip'⟩ := hin.skip hinbox hfailed
      exact ⟨v, v', hskip.failSender _ rfl rfl rfl rfl rfl, hskip', rfl⟩
  · obtain ⟨v, hread, -, -⟩ := hout.readAck hsize hinbox
    have hlsp : (x.core.receiveAck p).peerLsp = x.core.peerLsp := Core.receiveAck_peerLsp _ _
    obtain ⟨v', hdeliver⟩ := hin.deliver hsize' hinbox (hin.receiver.receiveAck p) hlsp hdelivers
    refine ⟨v, v', hread.deliverSender hdelivers, hdeliver, ?_⟩
    obtain ⟨peerSeq, outOfOrder, rfl, -⟩ := hdelivers.frame
    exact hlsp

end Steps

/-! ## Runs -/

/-- What both directions of two links keep: their windows and what they know of each other. -/
structure Coupled (base : Side → ModSeq8) (lsp : Side → LSPPayload) (e : Side → End) : Prop where
  flow : ∀ s, ∃ w, Flow 127 (base s) (lsp s.other) (e s) (e s.other) w
  peerLsp : ∀ s, (e s).core.peerLsp = lsp s

/-- The step lemma: every action keeps both flows. -/
theorem Coupled.step {base : Side → ModSeq8} {lsp : Side → LSPPayload} {e e' : Side → End}
    {s : Side} {action : Duplex.Action} (h : Coupled base lsp e)
    (hmoves : EndMoves (e s) (e s.other) action (e' s) (e' s.other)) :
    Coupled base lsp e' := by
  obtain ⟨w, hout⟩ := h.flow s
  obtain ⟨w', hin⟩ := h.flow s.other
  rw [Side.other_other] at hin
  have hmine := h.peerLsp s
  have hpeer := h.peerLsp s.other
  -- it is enough to give the two flows of the ends after the action
  have hkeep : (∃ v, Flow 127 (base s) (lsp s.other) (e' s) (e' s.other) v) →
      (∃ v', Flow 127 (base s.other) (lsp s) (e' s.other) (e' s) v') →
      (e' s).core.peerLsp = lsp s → (e' s.other).core.peerLsp = lsp s.other →
      Coupled base lsp e' := by
    intro hv hv' hlsp hlsp'
    refine ⟨side_cases s hv ?_, side_cases s hlsp hlsp'⟩
    rw [Side.other_other]
    exact hv'
  generalize he : e' s = x' at hmoves hkeep
  generalize he' : e' s.other = y' at hmoves hkeep
  cases hmoves with
  | enqueueCsm | advance => exact hkeep ⟨w, hout⟩ ⟨w', hin⟩ hmine hpeer
  | reconcile txBudget c' takens frames hemits =>
    have hlsp := emits_peerLsp hemits
    obtain ⟨v, v', hv, hv'⟩ := flows_reconcile (Nat.le_refl 127) hemits hout hin
    rw [← hlsp] at hv hv'
    exact hkeep ⟨v, hv⟩ ⟨v', hv'⟩ (hlsp.trans hmine) hpeer
  | read frame rest c' delivered hinbox hreads =>
    rw [← hmine] at hin
    obtain ⟨v, v', hv, hv', hlsp⟩ :=
      flows_read (Nat.le_refl 127) (Nat.le_refl 127) hinbox hreads hout hin
    rw [hmine] at hv'
    exact hkeep ⟨v, hv⟩ ⟨v', hv'⟩ (hlsp.trans hmine) hpeer
  | drop index => exact hkeep (hout.dropAck index) (hin.dropData index) hmine hpeer
  | duplicate index =>
    exact hkeep (hout.duplicateAck index) (hin.duplicateData (by decide) index) hmine hpeer

/-! ## What the windows say about the links -/

/-- The payload packets that a link still keeps, in the order of their numbers. -/
def unacknowledged (l : LinkLayer) : List Packet :=
  match l.peerAck with
  | none => []
  | some peerAck => (List.range 256).filterMap fun i =>
      ((coreOf l).unacked (peerAck + 1 + UInt8.ofNat i)).filter (·.header.control.isAck)

/-- The CSM payloads that a link still keeps, for a peer with the sessions of `lsp`. -/
def outstanding (lsp : LSPPayload) (l : LinkLayer) : List Bytes :=
  (unacknowledged l).flatMap (Core.csmOf lsp)

section Outstanding

variable {size : Nat} {base : ModSeq8} {lsp : LSPPayload} {w : Window Content}

/-- The number after the acknowledged ones. -/
theorem seqAt_add (base : ModSeq8) (i j : Nat) :
    seqAt base i + 1 + UInt8.ofNat j = seqAt base (i + j + 1) := by
  have hofNat : UInt8.ofNat (i + j + 1) = UInt8.ofNat i + UInt8.ofNat j + 1 := by
    simp [UInt8.ofNat_add]
  unfold seqAt
  rw [hofNat]
  grind

/-- **The kept packets are the window.** They carry the items that are not acknowledged. -/
theorem outstanding_eq {l : LinkLayer} (h : Sends size base lsp (coreOf l) w) (hinv : w.Inv size)
    (hsize : size ≤ 127) : outstanding lsp l = (w.sent.drop w.acked).flatMap (csmIn lsp) := by
  have hpeer : l.peerAck = some (seqAt base w.acked) := h.peerAck
  have hsent := hinv.sent_le
  have hacked := hinv.acked_le
  have hdelivered := hinv.delivered_le
  unfold outstanding unacknowledged
  rw [hpeer]
  dsimp only
  simp only [seqAt_add]
  -- beyond the window nothing is kept
  have hsplit : 256 = (w.sent.length - w.acked) + (256 - (w.sent.length - w.acked)) := by omega
  have hbeyond : (List.range (256 - (w.sent.length - w.acked))).filterMap (fun i =>
      ((coreOf l).unacked (seqAt base (w.acked + (w.sent.length - w.acked + i) + 1))).filter
        (·.header.control.isAck)) = [] := by
    refine List.filterMap_eq_nil_iff.mpr fun i hi => ?_
    rw [List.mem_range] at hi
    by_contra hkept
    obtain ⟨p, hp⟩ := Option.ne_none_iff_exists'.mp hkept
    obtain ⟨hp, -⟩ := Option.filter_eq_some_iff.mp hp
    obtain ⟨k, hlow, hhigh, hseq, -⟩ := h.position_lt hp
    have hinj := seqAt_inj base (by omega) (by omega) hseq
    omega
  -- and within the window one packet after the other
  have hwithin : ∀ m, m ≤ w.sent.length - w.acked →
      ((List.range m).filterMap fun i =>
        ((coreOf l).unacked (seqAt base (w.acked + i + 1))).filter
          (·.header.control.isAck)).flatMap (Core.csmOf lsp) =
        ((w.sent.drop w.acked).take m).flatMap (csmIn lsp) := by
    intro m
    induction m with
    | zero => simp
    | succ m ih =>
      intro hm
      have hkept := h.unacked (w.acked + m) (by omega) (by omega)
      obtain ⟨p, hp⟩ := Option.isSome_iff_exists.mp hkept
      obtain ⟨k, hlow, hhigh, hseq, hcarries⟩ := h.position_lt hp
      have hinj := seqAt_inj base (by omega) (by omega) hseq
      obtain rfl : k = w.acked + m := by omega
      have hfilter : ((coreOf l).unacked (seqAt base (w.acked + m + 1))).filter
          (·.header.control.isAck) = some p :=
        Option.filter_eq_some_iff.mpr ⟨hp, isAck_iff.mpr hcarries.control⟩
      rw [List.range_succ, List.filterMap_append, List.flatMap_append, ih (by omega),
        List.take_add_one, List.getElem?_drop, hcarries.content]
      simp [hfilter, csmOf_eq_csmIn]
  rw [hsplit, List.range_add, List.filterMap_append, List.filterMap_map]
  have hrest : ((fun i => ((coreOf l).unacked (seqAt base (w.acked + i + 1))).filter
      (·.header.control.isAck)) ∘ fun x => w.sent.length - w.acked + x) = fun i =>
        ((coreOf l).unacked (seqAt base (w.acked + (w.sent.length - w.acked + i) + 1))).filter
          (·.header.control.isAck) := rfl
  rw [hrest, hbeyond, List.append_nil, hwithin _ (Nat.le_refl _)]
  congr 1
  rw [List.take_of_length_le]
  rw [List.length_drop]

/-- Where no payload packet is kept, nothing is outstanding. -/
theorem outstanding_eq_nil {l : LinkLayer}
    (h : ∀ seq p, (coreOf l).unacked seq = some p → ¬ p.header.control.isAck = true) :
    outstanding lsp l = [] := by
  have hnone : unacknowledged l = [] := by
    unfold unacknowledged
    split
    · rfl
    · refine List.filterMap_eq_nil_iff.mpr fun i _ => ?_
      by_contra hkept
      obtain ⟨p, hp⟩ := Option.ne_none_iff_exists'.mp hkept
      obtain ⟨hp, hack⟩ := Option.filter_eq_some_iff.mp hp
      exact h _ p hp hack
  unfold outstanding
  rw [hnone]
  rfl

end Outstanding

/-- Reliable delivery from `s` to its peer: what has arrived is an initial part of what was
sent, and what was sent and has not arrived is still kept. -/
structure Reliable (d : Duplex) (s : Side) : Prop where
  in_order : (d s.other).received <+: (d s).sent
  kept : ∃ acked, acked <+: (d s.other).received ∧
    (d s).sent = acked ++ outstanding (d s.other).link.peerLsp (d s).link

/-- What the next action takes out of the packets kept at `s` has arrived at the peer. -/
def RemovesDelivered (d : Duplex) (s : Side) : Prop :=
  ∀ next d' seq entry, d.step next = some d' → (d s).link.retransmitMap seq = some entry →
    (d' s).link.retransmitMap seq = none →
      ∃ peerSeq, (d' s.other).link.peerSeq = some peerSeq ∧ ModSeq8.gt seq peerSeq = false

/-- A flow is reliable. -/
theorem Flow.reliable {size : Nat} {base : ModSeq8} {d : Duplex} {s : Side} {w : Window Content}
    (h : Flow size base (d s.other).link.peerLsp (endOf (d s)) (endOf (d s.other)) w)
    (hsize : size ≤ 127) : Reliable d s := by
  have hsent : (d s).sent = w.sent.flatMap (csmIn (d s.other).link.peerLsp) := h.sent
  have hreceived : (d s.other).received =
      (w.sent.take w.delivered).flatMap (csmIn (d s.other).link.peerLsp) := h.received
  have hprefix : ∀ m n, m ≤ n →
      (w.sent.take m).flatMap (csmIn (d s.other).link.peerLsp) <+:
        (w.sent.take n).flatMap (csmIn (d s.other).link.peerLsp) := by
    intro m n hmn
    obtain ⟨more, hmore⟩ := List.take_prefix_take_left hmn (l := w.sent)
    rw [← hmore, List.flatMap_append]
    exact List.prefix_append _ _
  refine ⟨?_, ⟨(w.sent.take w.acked).flatMap (csmIn (d s.other).link.peerLsp), ?_, ?_⟩⟩
  · have hall := hprefix w.delivered w.sent.length h.inv.delivered_le
    rw [List.take_length] at hall
    rw [hsent, hreceived]
    exact hall
  · rw [hreceived]
    exact hprefix w.acked w.delivered h.inv.acked_le
  · rw [outstanding_eq h.sender h.inv hsize, ← List.flatMap_append, List.take_append_drop, hsent]

/-! ## What leaves the packets kept -/

/-- Transmission only adds to the packets kept. -/
theorem emits_keeps {c c' : Core} {takens : List Bytes} {frames : List PacketOrDetect}
    (hmoves : Core.Emits c takens c' frames) {seq : UInt8}
    (hkept : (c.unacked seq).isSome = true) : (c'.unacked seq).isSome = true := by
  have hinsert : ∀ (c : Core) (key : UInt8) (p : Packet), (c.unacked seq).isSome = true →
      (c.unacked.insert key p seq).isSome = true := by
    intro c key p h
    rw [ByteMap.insert_apply]
    split
    · rfl
    · exact h
  induction hmoves with
  | nil => exact hkept
  | cons hmove hrest ih =>
    apply ih
    cases hmove with
    | synAck | syn | retransmit | payload => exact hinsert _ _ _ hkept
    | _ => exact hkept

/-- **Removal.** A packet that an action of its sender takes out has arrived. -/
theorem removed_delivered {size : Nat} {base : ModSeq8} {lsp : LSPPayload} {x y x' y' : End}
    {w : Window Content} {action : Duplex.Action} {seq : UInt8} {p : Packet}
    (hsize : size ≤ 127) (hout : Flow size base lsp x y w)
    (hmoves : EndMoves x y action x' y') (hkept : x.core.unacked seq = some p)
    (hgone : x'.core.unacked seq = none) :
    ∃ peerSeq, y'.core.peerSeq = some peerSeq ∧ ModSeq8.gt seq peerSeq = false := by
  cases hmoves with
  | enqueueCsm | advance | drop | duplicate =>
    rw [hkept] at hgone
    cases hgone
  | reconcile _ _ _ _ hemits =>
    have hsome : (x.core.unacked seq).isSome = true := by
      rw [hkept]
      rfl
    have hstill := emits_keeps hemits hsome
    dsimp only at hgone
    rw [hgone] at hstill
    cases hstill
  | read frame rest c' delivered hinbox hreads =>
    dsimp only at hgone
    rcases hreads.of_data hout.sender.phase with ⟨-, rfl | rfl⟩ | ⟨q, rfl, -, hdelivers⟩
    · rw [hkept] at hgone
      cases hgone
    · dsimp only at hgone
      rw [hkept] at hgone
      cases hgone
    · obtain ⟨peerSeq, outOfOrder, rfl, -⟩ := hdelivers.frame
      dsimp only at hgone
      obtain ⟨v, hread, hsent, hdelivered⟩ := hout.readAck hsize hinbox
      obtain ⟨k, hlow, hhigh, hseq, -⟩ := hout.sender.position_lt hkept
      have hcovered : k < v.acked := by
        by_contra hnot
        have hstill := hread.sender.unacked k (Nat.le_of_not_lt hnot) (by rw [hsent]; exact hhigh)
        dsimp only at hstill
        rw [← hseq, hgone] at hstill
        cases hstill
      have hacked := hread.inv.acked_le
      have hlength := hout.inv.delivered_le
      have hwindow := hout.inv.sent_le
      refine ⟨_, hout.receiver.peerSeq, ?_⟩
      rw [hseq, gt_seqAt (by omega) (by omega)]
      exact decide_eq_false (by omega)

/-- What the peer of an acting end keeps stays as it is. -/
theorem endMoves_peer {x y x' y' : End} {action : Duplex.Action}
    (hmoves : EndMoves x y action x' y') : y'.core = y.core := by
  cases hmoves <;> rfl

theorem Coupled.removes_delivered {base : Side → ModSeq8} {lsp : Side → LSPPayload} {d : Duplex}
    (h : Coupled base lsp fun s => endOf (d s)) (htidy : Tidy d) (s : Side) : RemovesDelivered d s := by
  rintro ⟨t, action⟩ d' seq entry hstep hkept hgone
  obtain ⟨-, hmoves⟩ := step_endMoves htidy hstep
  have hkept' : (endOf (d s)).core.unacked seq = some entry.packet := by
    have hmap : ((d s).link.retransmitMap seq).map (·.packet) = some entry.packet := by
      rw [hkept]
      rfl
    exact hmap
  have hgone' : (endOf (d' s)).core.unacked seq = none := by
    have hmap : ((d' s).link.retransmitMap seq).map (·.packet) = none := by
      rw [hgone]
      rfl
    exact hmap
  by_cases hside : t = s
  · subst hside
    obtain ⟨w, hout⟩ := h.flow t
    exact removed_delivered (Nat.le_refl 127) hout hmoves hkept' hgone'
  · have hother : t.other = s := by
      cases t <;> cases s <;> first | rfl | exact absurd rfl hside
    have hcore := endMoves_peer hmoves
    rw [hother] at hcore
    rw [hcore, hkept'] at hgone'
    cases hgone'

/-! ## The theorem -/

/-- Two ends that both carry data and agree on their numbers and sessions, with nothing under
way. -/
structure InStep (d : Duplex) : Prop where
  data : ∀ s, (d s).link.status.isData = true
  window : ∀ s, (d s).link.peerLsp.maxOutgoing ≤ 127
  sessions : ∀ s, SameSessions (d s).link.localLsp (d s.other).link.peerLsp
  numbers : ∀ s, ∃ last, (d s.other).link.peerSeq = some last ∧ (d s).link.peerAck = some last ∧
    (d s).link.ownSeq = last + 1
  nothing_kept : ∀ s, (d s).link.retransmitMap = .empty ∧ (d s).link.outOfOrder = .empty
  nothing_under_way : ∀ s, (d s).inbox = [] ∧ (d s).sent = [] ∧ (d s).received = []
  tidy : Tidy d

/-- Ends in step are coupled by empty windows. -/
theorem InStep.coupled {d : Duplex} (h : InStep d) :
    ∃ base, Coupled base (fun s => (d s).link.peerLsp) fun s => endOf (d s) := by
  choose base hpeer hack hown using h.numbers
  refine ⟨base, fun s => ⟨Window.initial Content, ?_⟩, fun s => rfl⟩
  obtain ⟨hinbox, hsent, -⟩ := h.nothing_under_way s
  obtain ⟨hinbox', -, hreceived'⟩ := h.nothing_under_way s.other
  have hunacked : (endOf (d s)).core.unacked = fun _ => none := by
    have hmap : (fun seq => ((d s).link.retransmitMap seq).map (·.packet)) = fun _ => none := by
      rw [(h.nothing_kept s).1]
      rfl
    exact hmap
  have hbuffer : (endOf (d s.other)).core.outOfOrder = .empty := (h.nothing_kept s.other).2
  refine ⟨.initial, id, ⟨?_, ?_, h.sessions s, fun _ => ?_, ?_, ?_, ?_⟩, ⟨?_, ?_, ?_⟩, ?_, ?_, ?_, ?_⟩
  · exact Or.inl (phaseOf_eq_data.mpr (h.data s))
  · have hwindow := UInt8.le_iff_toNat_le.mp (h.window s)
    exact hwindow
  · have hnext : (d s).link.ownSeq = seqAt (base s) (0 + 1) := by
      rw [seqAt_succ, seqAt_zero]
      exact hown s
    exact hnext
  · have hlast : (d s).link.peerAck = some (seqAt (base s) 0) := by
      rw [seqAt_zero]
      exact hack s
    exact hlast
  · intro seq p hp
    rw [hunacked] at hp
    cases hp
  · intro k _ hk
    cases hk
  · have hlast : (d s.other).link.peerSeq = some (seqAt (base s) 0) := by
      rw [seqAt_zero]
      exact hpeer s
    exact hlast
  · intro seq p hp
    rw [hbuffer] at hp
    cases hp
  · intro k hk
    cases hk
  · have hnone : List.Forall₂ (CarriesData (base s) []) (d s.other).inbox [] := by
      rw [hinbox']
      exact .nil
    exact hnone
  · have hnone : List.Forall₂ (CarriesAck (base s)) (d s).inbox [] := by
      rw [hinbox]
      exact .nil
    exact hnone
  · exact hsent
  · exact hreceived'

/-- **Reliable delivery.** From ends in step, whatever the two users queue, whatever the clocks
do and whatever the channels lose or repeat: at every moment the CSM payloads have arrived in
order up to some point, all later ones are still kept by their sender, and what an
acknowledgement makes a sender forget has arrived. -/
theorem reliable_delivery (d₀ d : Duplex) (actions : List (Side × Duplex.Action))
    (hinStep : InStep d₀) (hrun : run Duplex.step d₀ actions = some d) (s : Side) :
    Reliable d s ∧ RemovesDelivered d s := by
  obtain ⟨base, hcoupled⟩ := hinStep.coupled
  have hkept := run_invariant
    (fun d => Tidy d ∧ Coupled base (fun s => (d₀ s).link.peerLsp) fun s => endOf (d s))
    (fun d action d' hd hstep => by
      obtain ⟨t, action⟩ := action
      obtain ⟨htidy, hmoves⟩ := step_endMoves hd.1 hstep
      exact ⟨htidy, hd.2.step hmoves⟩)
    ⟨hinStep.tidy, hcoupled⟩ hrun
  obtain ⟨htidy, hcoupled'⟩ := hkept
  obtain ⟨w, hflow⟩ := hcoupled'.flow s
  have hlsp : (d s.other).link.peerLsp = (d₀ s.other).link.peerLsp := hcoupled'.peerLsp s.other
  rw [← hlsp] at hflow
  exact ⟨hflow.reliable (Nat.le_refl 127), hcoupled'.removes_delivered htidy s⟩

/-- A client and a server that have just negotiated the Bluetooth parameters. -/
def justOpened : Duplex
  | .a => Duplex.freshEnd
    { LinkLayer.withClockAndLspNegotiator false 0 (SimpleLSPNegotiator .bluetooth) with
      status := .writable, peerSeq := some 0x10, ownSeq := 0x21, peerAck := some 0x20
      localLsp := .bluetooth, peerLsp := .bluetooth }
  | .b => Duplex.freshEnd
    { LinkLayer.withClockAndLspNegotiator true 0 (SimpleLSPNegotiator .bluetooth) with
      status := .writable, peerSeq := some 0x20, ownSeq := 0x11, peerAck := some 0x10
      localLsp := .bluetooth, peerLsp := .bluetooth }

/-- The Bluetooth parameters give each id to one session type. -/
theorem sameSessions_bluetooth : SameSessions .bluetooth .bluetooth := by
  intro sessionType session h
  cases sessionType <;> obtain rfl := Option.some.inj h <;> exact ⟨_, rfl, rfl⟩

/-- They are in step. -/
theorem justOpened_inStep : InStep justOpened := by
  constructor
  · rintro (_ | _) <;> rfl
  · rintro (_ | _) <;> decide
  · rintro (_ | _) <;> exact sameSessions_bluetooth
  · rintro (_ | _)
    · exact ⟨0x20, rfl, rfl, rfl⟩
    · exact ⟨0x10, rfl, rfl, rfl⟩
  · rintro (_ | _) <;> exact ⟨rfl, rfl⟩
  · rintro (_ | _) <;> exact ⟨rfl, rfl, rfl⟩
  · rintro (_ | _) <;> rfl

/-- A payload of the client that is lost once arrives when it is sent again. -/
theorem reliable_delivery_justOpened :
    ∃ d, run Duplex.step justOpened
        [(.a, .enqueueCsm [1]), (.a, .reconcile 1), (.b, .drop 0), (.a, .advance 3000000000),
          (.a, .reconcile 1), (.b, .read)] = some d ∧
      (d .b).received = [[1]] ∧ Reliable d .a := by
  have hrun : (run Duplex.step justOpened
        [(.a, .enqueueCsm [1]), (.a, .reconcile 1), (.b, .drop 0), (.a, .advance 3000000000),
          (.a, .reconcile 1), (.b, .read)]).any (fun d => (d .b).received = [[1]]) = true := by
    decide
  obtain ⟨d, hd, hreceived⟩ := (Option.any_eq_true _ _).mp hrun
  exact ⟨d, hd, of_decide_eq_true hreceived,
    (reliable_delivery justOpened d _ justOpened_inStep hd .a).1⟩

end Catplay.Analysis.Link
