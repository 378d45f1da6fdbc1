import Catplay.Library.Run
import Catplay.Model.Link.Files

/-!
# A file arrives as it was sent

A transfer is followed from its set-up on, among any other use of the transmitter. Whatever
budgets the link offers and whenever the receiver pauses or resumes, the payloads of the transfer
are its source in pieces, and a receiver that is fed them raises these pieces and one completion
(`file_transfer`).
-/

set_option autoImplicit false

namespace Catplay.Analysis.Link

open Catplay.Library.Run Catplay.Model.Link

/-! ## The payloads of a transfer -/

def content (packets : List FileTransferPayload) : Bytes := packets.flatMap (·.payload)

/-- The operations of a transfer that has not come to its end. -/
def Begun (ops : List FileTransferOp) : Prop :=
  ops = [] ∨ ∃ n, ops = .firstData :: List.replicate n .data

/-- **The operations of a whole transfer.** -/
def Whole (ops : List FileTransferOp) : Prop :=
  ops = [.firstAndOnlyData] ∨ ∃ n, ops = .firstData :: (List.replicate n .data ++ [.lastData])

/-- What a session has sent so far. -/
structure Cut (source : Bytes) (session : FileTransferOutgoing)
    (packets : List FileTransferPayload) : Prop where
  source_eq : session.source = source
  total_eq : session.total = source.length
  content_eq : content packets = source.take session.progress
  progress_le : session.progress ≤ source.length
  whole : session.state = .waitingForSuccess →
    session.progress = source.length ∧ Whole (packets.map (·.op)) ∧
      packets.length ≤ max 1 source.length
  begun : session.state = .sending ∨ session.state = .pause →
    Begun (packets.map (·.op)) ∧ packets.length ≤ session.progress ∧
      (packets = [] → session.progress = 0) ∧ (packets ≠ [] → session.progress < source.length)
  live : session.state = .waitingForSuccess ∨ session.state = .sending ∨ session.state = .pause

theorem content_append (packets : List FileTransferPayload) (p : FileTransferPayload) :
    content (packets ++ [p]) = content packets ++ p.payload := by
  unfold content
  rw [List.flatMap_append, List.flatMap_singleton]

theorem Begun.concat {ops : List FileTransferOp} (h : Begun ops) (hne : ops ≠ []) :
    Begun (ops ++ [.data]) ∧ Whole (ops ++ [.lastData]) := by
  rcases h with hnil | ⟨n, hops⟩
  · exact absurd hnil hne
  · rw [hops]
    refine ⟨.inr ⟨n + 1, ?_⟩, .inr ⟨n, rfl⟩⟩
    rw [List.cons_append, List.replicate_succ']

theorem getChunk_spec {source : Bytes} {offset : Nat} (hoffset : offset ≤ source.length)
    {maxLen : Nat} (hmax : 0 < maxLen) :
    let chunk := FileTransferOutgoing.getChunk source offset maxLen
    source.take offset ++ chunk.1 = source.take (offset + chunk.1.length) ∧
      offset + chunk.1.length ≤ source.length ∧ chunk.1.length ≤ maxLen ∧
      (chunk.2 = true ↔ offset + chunk.1.length = source.length) ∧
      (offset < source.length → 0 < chunk.1.length) := by
  unfold FileTransferOutgoing.getChunk
  by_cases hend : offset ≥ source.length
  · rw [if_pos hend]
    have heq : offset = source.length := by omega
    simp [heq]
  · rw [if_neg hend]
    have hlength : ((source.drop offset).take maxLen).length = min maxLen (source.length - offset) := by
      rw [List.length_take, List.length_drop]
    dsimp only
    refine ⟨?_, by omega, by omega, ?_, by omega⟩
    · rw [hlength, List.take_add, ← hlength]
      congr 1
      rw [List.take_eq_take_iff, List.length_drop, hlength]
      omega
    · rw [decide_eq_true_iff]
      omega

variable {packets : List FileTransferPayload} {session : FileTransferOutgoing}
  {tx : FileTransferTransmitter} {event : FileTransferEvent} {p setup : FileTransferPayload}
  {fileType : UInt16} {setupData : Bytes}

/-- **A poll of a session that sends** gives the next piece. -/
theorem Cut.pollSend {source : Bytes} (h : Cut source session packets)
    (hsending : session.state = .sending) {chunkSize : Nat} (hchunk : 0 < chunkSize) :
    ∃ p, (session.pollSend chunkSize).2 = some p ∧ p.fileId = session.fileId ∧
      p.payload.length ≤ chunkSize ∧
      Cut source (session.pollSend chunkSize).1 (packets ++ [p]) := by
  obtain rfl := h.source_eq
  obtain ⟨hbegun, hcount, hnone, hsome⟩ := h.begun (.inl hsending)
  have htotal := h.total_eq
  obtain ⟨htake, hle, hlen, heof, hpos⟩ := getChunk_spec h.progress_le hchunk
  unfold FileTransferOutgoing.pollSend
  rw [if_neg (not_not.mpr hsending)]
  generalize FileTransferOutgoing.getChunk session.source session.progress chunkSize = chunk
    at htake hle hlen heof hpos
  obtain ⟨slice, eof⟩ := chunk
  dsimp only at htake hle hlen heof hpos ⊢
  have hlast : (eof || (decide (0 < session.total) &&
      decide (session.total ≤ session.progress + slice.length))) =
      decide (session.progress + slice.length = session.source.length) := by
    rw [Bool.eq_iff_iff]
    simp only [Bool.or_eq_true, Bool.and_eq_true, decide_eq_true_eq, heof]
    omega
  have hcontent : ∀ op : FileTransferOp,
      content (packets ++ [⟨session.fileId, op, slice⟩]) =
        session.source.take (session.progress + slice.length) := by
    intro op
    rw [content_append, h.content_eq]
    exact htake
  have hzero : (session.progress == 0) = decide (packets = []) := by
    rw [Bool.eq_iff_iff, beq_iff_eq, decide_eq_true_iff]
    constructor
    · intro hprogress
      rw [hprogress] at hcount
      exact List.length_eq_zero_iff.mp (Nat.le_zero.mp hcount)
    · exact hnone
  rw [hlast, hzero]
  by_cases hdone : session.progress + slice.length = session.source.length
  · -- the last piece
    have hcut : ∀ op : FileTransferOp,
        Whole ((packets ++ [(⟨session.fileId, op, slice⟩ : FileTransferPayload)]).map (·.op)) →
        packets.length + 1 ≤ max 1 session.source.length →
        Cut session.source
          { session with
            progress := session.progress + slice.length, state := .waitingForSuccess }
          (packets ++ [⟨session.fileId, op, slice⟩]) := by
      intro op hop hcount'
      refine ⟨rfl, htotal, hcontent op, hle, ?_, ?_, .inl rfl⟩
      · intro _
        refine ⟨hdone, hop, ?_⟩
        rw [List.length_append, List.length_singleton]
        exact hcount'
      · rintro (hstate | hstate)
        · cases hstate
        · cases hstate
    rw [decide_eq_true hdone]
    by_cases hempty : packets = []
    · rw [decide_eq_true hempty]
      refine ⟨⟨session.fileId, .firstAndOnlyData, slice⟩, rfl, rfl, hlen, hcut _ (.inl ?_) ?_⟩
      · rw [hempty]
        rfl
      · rw [hempty]
        exact Nat.le_max_left 1 _
    · have hstrict := hpos (hsome hempty)
      rw [decide_eq_false hempty]
      refine ⟨⟨session.fileId, .lastData, slice⟩, rfl, rfl, hlen, hcut _ ?_ (by omega)⟩
      rw [List.map_append]
      exact (hbegun.concat (by simpa using hempty)).2
  · -- a piece that others follow
    have hstrict := hpos (by omega)
    have hcut : ∀ op : FileTransferOp,
        Begun ((packets ++ [(⟨session.fileId, op, slice⟩ : FileTransferPayload)]).map (·.op)) →
        Cut session.source { session with progress := session.progress + slice.length }
          (packets ++ [⟨session.fileId, op, slice⟩]) := by
      intro op hop
      refine ⟨rfl, htotal, hcontent op, hle, ?_, ?_, h.live⟩
      · intro hwaiting
        rw [hsending] at hwaiting
        cases hwaiting
      · intro _
        refine ⟨hop, ?_, fun hnil => absurd hnil (by simp), fun _ => ?_⟩
        · rw [List.length_append, List.length_singleton]
          dsimp only
          omega
        · dsimp only
          omega
    rw [decide_eq_false hdone]
    by_cases hempty : packets = []
    · rw [decide_eq_true hempty]
      refine ⟨⟨session.fileId, .firstData, slice⟩, rfl, rfl, hlen, hcut _ (.inr ⟨0, ?_⟩)⟩
      rw [hempty]
      rfl
    · rw [decide_eq_false hempty]
      refine ⟨⟨session.fileId, .data, slice⟩, rfl, rfl, hlen, hcut _ ?_⟩
      rw [List.map_append]
      exact (hbegun.concat (by simpa using hempty)).1

/-! ## The transmitter at work -/

/-- The transmitter with the payloads that its polls gave, each beside the budget of the poll. -/
structure Sender where
  tx : FileTransferTransmitter
  emitted : List (Nat × FileTransferPayload)

inductive SenderAct
  | reserve
  | cancelReserved (id : UInt8)
  | setup (id : UInt8) (fileType : UInt16) (setupData source : Bytes)
  | cancel (id : UInt8)
  | feed (payload : FileTransferPayload)
  | poll (chunkSize : Nat)

/-- A set-up that fails changes nothing. -/
def senderStep (s : Sender) : SenderAct → Option Sender
  | .reserve => some { s with tx := s.tx.reserve.1 }
  | .cancelReserved id => some { s with tx := s.tx.cancelReserved id }
  | .setup id fileType setupData source =>
    match s.tx.setup id fileType setupData source with
    | some (tx, _) => some { s with tx }
    | none => if id = 255 then none else some s
  | .cancel id => (s.tx.cancel id).map fun (tx, _) => { s with tx }
  | .feed payload => (s.tx.feed payload).map fun (tx, _, _) => { s with tx }
  | .poll chunkSize =>
    let (tx, payload) := s.tx.poll chunkSize
    some { tx, emitted := s.emitted ++ payload.toList.map fun p => (chunkSize, p) }

/-- Every budget is positive, and all that the transfer hears of its receiver is that it pauses
and resumes. -/
def Undisturbed (id : UInt8) : SenderAct → Prop
  | .cancel other => other ≠ id
  | .feed payload => payload.fileId = id → payload.op = .start ∨ payload.op = .pause
  | .poll chunkSize => 0 < chunkSize
  | _ => True

/-- The payloads of one transfer. -/
def packetsOf (id : UInt8) (emitted : List (Nat × FileTransferPayload)) :
    List FileTransferPayload :=
  (emitted.map Prod.snd).filter fun p => p.fileId = id

/-- Every session knows the id of its slot. -/
def Indexed (tx : FileTransferTransmitter) : Prop :=
  ∀ i session, tx.outgoing i = some session → session.fileId = i

theorem setSlot_outgoing (tx : FileTransferTransmitter) (id i : UInt8)
    (slot : Option FileTransferOutgoing) :
    (tx.setSlot id slot).outgoing i = if i = id then slot else tx.outgoing i := rfl

theorem Indexed.setSlot (h : Indexed tx) {id : UInt8}
    {slot : Option FileTransferOutgoing} (hslot : ∀ session, slot = some session →
      session.fileId = id) : Indexed (tx.setSlot id slot) := by
  intro i session hget
  rw [setSlot_outgoing] at hget
  by_cases hi : i = id
  · rw [if_pos hi] at hget
    rw [hi]
    exact hslot session hget
  · rw [if_neg hi] at hget
    exact h i session hget

theorem reconcile_outgoing (tx : FileTransferTransmitter) (id : UInt8) {i : UInt8} (hne : i ≠ id) :
    (tx.reconcile id).outgoing i = tx.outgoing i := by
  unfold FileTransferTransmitter.reconcile
  split
  · split
    · rw [setSlot_outgoing, if_neg hne]
      rfl
    · rfl
  · rfl

theorem Indexed.reconcile (h : Indexed tx) (id : UInt8) :
    Indexed (tx.reconcile id) := by
  unfold FileTransferTransmitter.reconcile
  split
  · split
    · exact Indexed.setSlot (fun i session hget => h i session hget) fun session hslot => by cases hslot
    · exact h
  · exact h

theorem pollSend_fileId (session : FileTransferOutgoing) (chunkSize : Nat) :
    (session.pollSend chunkSize).1.fileId = session.fileId := by
  unfold FileTransferOutgoing.pollSend
  split
  · rfl
  · rfl

theorem indexed_new (server : Bool) : Indexed (.new server) := by
  intro i session hget
  cases hget

/-- What a poll does: a session that sends gives a piece. -/
theorem poll_cases (tx : FileTransferTransmitter) (chunkSize : Nat) :
    (tx.poll chunkSize = (tx, none) ∧
      ∀ i ∈ FileTransferTransmitter.allIds, ∀ session, tx.outgoing i = some session →
        session.state ≠ .sending) ∨
    ∃ i session, tx.outgoing i = some session ∧ session.state = .sending ∧
      tx.poll chunkSize =
        (tx.setSlot i (some (session.pollSend chunkSize).1), (session.pollSend chunkSize).2) := by
  unfold FileTransferTransmitter.poll
  split
  · next hfind =>
    left
    refine ⟨rfl, ?_⟩
    intro i hi session hget hstate
    have hnone := List.find?_eq_none.mp hfind i hi
    rw [hget] at hnone
    simp [hstate] at hnone
  · next i hfind =>
    right
    have hsome := List.find?_some hfind
    cases hget : tx.outgoing i with
    | none =>
      rw [hget] at hsome
      cases hsome
    | some session =>
      rw [hget] at hsome
      refine ⟨i, session, hget, ?_, rfl⟩
      simpa using hsome

theorem indexed_step {s s' : Sender} {act : SenderAct} (hstep : senderStep s act = some s')
    (h : Indexed s.tx) : Indexed s'.tx := by
  cases act with
  | reserve =>
    obtain rfl := Option.some.inj hstep
    show Indexed s.tx.reserve.1
    unfold FileTransferTransmitter.reserve
    split
    · exact fun i session hget => h i session hget
    · exact h
  | cancelReserved id =>
    obtain rfl := Option.some.inj hstep
    exact fun i session hget => h i session hget
  | setup id fileType setupData source =>
    unfold senderStep FileTransferTransmitter.setup at hstep
    dsimp only at hstep
    by_cases hid : id = 255
    · rw [if_pos hid] at hstep
      dsimp only at hstep
      rw [if_pos hid] at hstep
      cases hstep
    · rw [if_neg hid] at hstep
      cases hget : s.tx.outgoing id with
      | some session =>
        rw [hget] at hstep
        dsimp only at hstep
        rw [if_neg hid] at hstep
        obtain rfl := Option.some.inj hstep
        exact h
      | none =>
        rw [hget] at hstep
        obtain rfl := Option.some.inj hstep
        apply Indexed.reconcile
        apply h.setSlot
        intro session hsession
        rw [← Option.some.inj hsession]
  | cancel id =>
    obtain ⟨⟨tx, payload⟩, hcancel, rfl⟩ := Option.map_eq_some_iff.mp hstep
    unfold FileTransferTransmitter.cancel at hcancel
    split at hcancel
    · cases hcancel
    · split at hcancel
      · next session hget =>
        obtain ⟨rfl, -⟩ := Prod.mk.inj (Option.some.inj hcancel)
        apply Indexed.reconcile
        apply h.setSlot
        intro other hother
        rw [← Option.some.inj hother]
        have hid := h id session hget
        split <;> exact hid
      · obtain ⟨rfl, -⟩ := Prod.mk.inj (Option.some.inj hcancel)
        exact h
  | feed payload =>
    obtain ⟨⟨tx, resp, event⟩, hfeed, rfl⟩ := Option.map_eq_some_iff.mp hstep
    unfold FileTransferTransmitter.feed at hfeed
    split at hfeed
    · cases hfeed
    · split at hfeed
      · obtain ⟨rfl, -⟩ := Prod.mk.inj (Option.some.inj hfeed)
        exact h
      · split at hfeed
        · next session hget =>
          split at hfeed
          · obtain ⟨rfl, -⟩ := Prod.mk.inj (Option.some.inj hfeed)
            exact h
          · obtain ⟨rfl, -⟩ := Prod.mk.inj (Option.some.inj hfeed)
            apply Indexed.reconcile
            apply h.setSlot
            intro other hother
            rw [← Option.some.inj hother]
            exact h payload.fileId session hget
        · split at hfeed
          · obtain ⟨rfl, -⟩ := Prod.mk.inj (Option.some.inj hfeed)
            exact fun i session hget => h i session hget
          · obtain ⟨rfl, -⟩ := Prod.mk.inj (Option.some.inj hfeed)
            exact h
  | poll chunkSize =>
    obtain rfl := Option.some.inj hstep
    rcases poll_cases s.tx chunkSize with ⟨hpoll, -⟩ | ⟨i, session, hget, -, hpoll⟩
    · show Indexed (s.tx.poll chunkSize).1
      rw [hpoll]
      exact h
    · show Indexed (s.tx.poll chunkSize).1
      rw [hpoll]
      apply h.setSlot
      intro other hother
      rw [← Option.some.inj hother, pollSend_fileId]
      exact h i session hget

/-- **A transfer on its way.** -/
structure Underway (id : UInt8) (source : Bytes) (s : Sender) : Prop where
  indexed : Indexed s.tx
  session : ∃ session, s.tx.outgoing id = some session ∧ Cut source session (packetsOf id s.emitted)
  within : ∀ e ∈ s.emitted, e.2.fileId = id → e.2.payload.length ≤ e.1

variable {id : UInt8} {source : Bytes} {s s' : Sender}

theorem Underway.frame (h : Underway id source s)
    (hindexed : Indexed tx) (hsame : tx.outgoing id = s.tx.outgoing id) :
    Underway id source { s with tx } where
  indexed := hindexed
  session := by
    obtain ⟨session, hget, hcut⟩ := h.session
    exact ⟨session, hsame.trans hget, hcut⟩
  within := h.within

/-- Pausing and resuming leave the pieces alone. -/
theorem Cut.pauses (h : Cut source session packets) (hevent : event = .start ∨ event = .pause) :
    Cut source (session.feedEvent event) packets ∧
      (session.feedEvent event).shouldReclaimId = false := by
  have hcut : ∀ state, (state = .waitingForSuccess ↔ session.state = .waitingForSuccess) →
      (state = .sending ∨ state = .pause ↔ session.state = .sending ∨ session.state = .pause) →
      Cut source { session with state } packets := by
    intro state hwaiting hopen
    refine ⟨h.source_eq, h.total_eq, h.content_eq, h.progress_le, fun hstate => h.whole (hwaiting.mp hstate),
      fun hstate => h.begun (hopen.mp hstate), ?_⟩
    cases h.live with
    | inl hlive => exact .inl (hwaiting.mpr hlive)
    | inr hlive => exact .inr (hopen.mpr hlive)
  unfold FileTransferOutgoing.feedEvent FileTransferOutgoing.shouldReclaimId
  rcases hevent with rfl | rfl
  · rcases h.live with hstate | hstate | hstate
    all_goals
      rw [hstate]
      exact ⟨hcut _ (by simp [hstate]) (by simp [hstate]), rfl⟩
  · rcases h.live with hstate | hstate | hstate
    all_goals
      rw [hstate]
      exact ⟨hcut _ (by simp [hstate]) (by simp [hstate]), rfl⟩

theorem reconcile_of_not
    (hget : tx.outgoing id = some session) (hnot : session.shouldReclaimId = false) :
    tx.reconcile id = tx := by
  unfold FileTransferTransmitter.reconcile
  rw [hget]
  dsimp only
  rw [hnot]
  rfl

theorem tryFrom_pauses {payload : FileTransferPayload}
    (h : payload.op = .start ∨ payload.op = .pause) :
    ∃ event, FileTransferEvent.tryFrom payload = some event ∧ (event = .start ∨ event = .pause) := by
  unfold FileTransferEvent.tryFrom
  rcases h with hop | hop
  · rw [hop]
    exact ⟨.start, rfl, .inl rfl⟩
  · rw [hop]
    exact ⟨.pause, rfl, .inr rfl⟩

theorem Underway.feed (h : Underway id source s) {payload : FileTransferPayload}
    (hop : payload.fileId = id → payload.op = .start ∨ payload.op = .pause)
    {resp : Option FileTransferPayload} {event : Option FileTransferEvent} (hindexed : Indexed tx)
    (hfeed : s.tx.feed payload = some (tx, resp, event)) : Underway id source { s with tx } := by
  unfold FileTransferTransmitter.feed at hfeed
  split at hfeed
  · cases hfeed
  · split at hfeed
    · obtain ⟨rfl, -⟩ := Prod.mk.inj (Option.some.inj hfeed)
      exact h
    · by_cases hid : payload.fileId = id
      · obtain ⟨session, hget, hcut⟩ := h.session
        obtain ⟨event', hevent, hpauses⟩ := tryFrom_pauses (hop hid)
        obtain ⟨hcut', hreclaim⟩ := hcut.pauses hpauses
        rw [hid, hget, hevent] at hfeed
        dsimp only at hfeed
        have hslot : (s.tx.setSlot id (some (session.feedEvent event'))).outgoing id =
            some (session.feedEvent event') := by
          rw [setSlot_outgoing, if_pos rfl]
        rw [reconcile_of_not hslot hreclaim] at hfeed
        obtain ⟨rfl, -⟩ := Prod.mk.inj (Option.some.inj hfeed)
        exact ⟨hindexed, ⟨_, hslot, hcut'⟩, h.within⟩
      · have hne : id ≠ payload.fileId := fun heq => hid heq.symm
        split at hfeed
        · split at hfeed
          · obtain ⟨rfl, -⟩ := Prod.mk.inj (Option.some.inj hfeed)
            exact h
          · obtain ⟨rfl, -⟩ := Prod.mk.inj (Option.some.inj hfeed)
            apply h.frame hindexed
            rw [reconcile_outgoing _ _ hne, setSlot_outgoing, if_neg hne]
        · split at hfeed
          · obtain ⟨rfl, -⟩ := Prod.mk.inj (Option.some.inj hfeed)
            exact h.frame hindexed rfl
          · obtain ⟨rfl, -⟩ := Prod.mk.inj (Option.some.inj hfeed)
            exact h

theorem packetsOf_concat (id : UInt8) (emitted : List (Nat × FileTransferPayload)) (n : Nat)
    (p : FileTransferPayload) :
    packetsOf id (emitted ++ [(n, p)]) =
      packetsOf id emitted ++ if p.fileId = id then [p] else [] := by
  unfold packetsOf
  rw [List.map_append, List.filter_append]
  by_cases hid : p.fileId = id
  · rw [if_pos hid]
    simp [hid]
  · rw [if_neg hid]
    simp [hid]

theorem Underway.poll (h : Underway id source s) {chunkSize : Nat} (hchunk : 0 < chunkSize)
    (hstep : senderStep s (.poll chunkSize) = some s') : Underway id source s' := by
  have hindexed := indexed_step hstep h.indexed
  have hs : s' =
      { tx := (s.tx.poll chunkSize).1
        emitted := s.emitted ++ (s.tx.poll chunkSize).2.toList.map fun p => (chunkSize, p) } :=
    (Option.some.inj hstep).symm
  rw [hs] at hindexed ⊢
  obtain ⟨session, hget, hcut⟩ := h.session
  rcases poll_cases s.tx chunkSize with ⟨hpoll, -⟩ | ⟨i, polled, hpolled, hsending, hpoll⟩
  · have hnone : (s.tx.poll chunkSize).2 = none := by rw [hpoll]
    have htx : (s.tx.poll chunkSize).1 = s.tx := by rw [hpoll]
    rw [hnone, htx, Option.toList_none, List.map_nil, List.append_nil]
    exact h
  · have hsome : (s.tx.poll chunkSize).2 = (polled.pollSend chunkSize).2 := by rw [hpoll]
    have htx : (s.tx.poll chunkSize).1 = s.tx.setSlot i (some (polled.pollSend chunkSize).1) := by
      rw [hpoll]
    rw [htx] at hindexed
    rw [hsome, htx]
    by_cases hi : i = id
    · rw [hi, hget] at hpolled
      obtain rfl := Option.some.inj hpolled
      obtain ⟨p, hp, hfile, hlen, hcut'⟩ := hcut.pollSend hsending hchunk
      have hfileId : p.fileId = id := hfile.trans (h.indexed id session hget)
      rw [hp]
      refine ⟨hindexed, ⟨(session.pollSend chunkSize).1, ?_, ?_⟩, ?_⟩
      · rw [setSlot_outgoing, if_pos hi.symm]
      · show Cut source _ (packetsOf id (s.emitted ++ [(chunkSize, p)]))
        rw [packetsOf_concat, if_pos hfileId]
        exact hcut'
      · intro e he hfile
        cases List.mem_append.mp he with
        | inl hold => exact h.within e hold hfile
        | inr hnew =>
          obtain rfl := List.mem_singleton.mp hnew
          exact hlen
    · have hother : polled.fileId ≠ id := by
        rw [h.indexed i polled hpolled]
        exact hi
      have hnone : ∀ p, (polled.pollSend chunkSize).2 = some p → p.fileId ≠ id := by
        intro p hp
        unfold FileTransferOutgoing.pollSend at hp
        rw [if_neg (not_not.mpr hsending)] at hp
        rw [← Option.some.inj hp]
        exact hother
      refine ⟨hindexed, ⟨session, ?_, ?_⟩, ?_⟩
      · rw [setSlot_outgoing, if_neg (Ne.symm hi)]
        exact hget
      · cases hp : (polled.pollSend chunkSize).2 with
        | none =>
          show Cut source session (packetsOf id (s.emitted ++ []))
          rw [List.append_nil]
          exact hcut
        | some p =>
          show Cut source _ (packetsOf id (s.emitted ++ [(chunkSize, p)]))
          rw [packetsOf_concat, if_neg (hnone p hp), List.append_nil]
          exact hcut
      · intro e he hfile
        cases List.mem_append.mp he with
        | inl hold => exact h.within e hold hfile
        | inr hnew =>
          obtain ⟨p, hp, rfl⟩ := List.mem_map.mp hnew
          exact absurd hfile (hnone p (Option.mem_toList.mp hp))

/-- **Every step of the transmitter** keeps the transfer on its way. -/
theorem Underway.step (h : Underway id source s) {act : SenderAct} (hact : Undisturbed id act)
    (hstep : senderStep s act = some s') : Underway id source s' := by
  have hindexed := indexed_step hstep h.indexed
  cases act with
  | reserve =>
    obtain rfl := Option.some.inj hstep
    apply h.frame hindexed
    unfold FileTransferTransmitter.reserve
    split
    · rfl
    · rfl
  | cancelReserved other =>
    obtain rfl := Option.some.inj hstep
    exact h.frame hindexed rfl
  | setup other fileType setupData source' =>
    obtain ⟨session, hget, -⟩ := h.session
    simp only [senderStep] at hstep
    split at hstep
    · next tx payload hsetup =>
      obtain rfl := Option.some.inj hstep
      apply h.frame hindexed
      unfold FileTransferTransmitter.setup at hsetup
      split at hsetup
      · cases hsetup
      · split at hsetup
        · cases hsetup
        · next hnone =>
          have hne : id ≠ other := by
            rintro rfl
            rw [hget] at hnone
            cases hnone
          obtain ⟨rfl, -⟩ := Prod.mk.inj (Option.some.inj hsetup)
          rw [reconcile_outgoing _ _ hne, setSlot_outgoing, if_neg hne]
    · split at hstep
      · cases hstep
      · obtain rfl := Option.some.inj hstep
        exact h
  | cancel other =>
    obtain ⟨⟨tx, payload⟩, hcancel, rfl⟩ := Option.map_eq_some_iff.mp hstep
    apply h.frame hindexed
    unfold FileTransferTransmitter.cancel at hcancel
    split at hcancel
    · cases hcancel
    · split at hcancel
      · obtain ⟨rfl, -⟩ := Prod.mk.inj (Option.some.inj hcancel)
        rw [reconcile_outgoing _ _ (Ne.symm hact), setSlot_outgoing, if_neg (Ne.symm hact)]
      · obtain ⟨rfl, -⟩ := Prod.mk.inj (Option.some.inj hcancel)
        rfl
  | feed payload =>
    obtain ⟨⟨tx, resp, event⟩, hfeed, rfl⟩ := Option.map_eq_some_iff.mp hstep
    exact h.feed hact hindexed hfeed
  | poll chunkSize => exact h.poll hact hstep

/-! ## The receiver -/

/-- What a receiver answers and raises when it is fed one payload after the other. -/
def feedAll (rx : FileTransferReceiver) :
    List FileTransferPayload → List FileTransferPayload × List (UInt8 × FileTransferEvent)
  | [] => ([], [])
  | p :: ps =>
    let (rx, reply, event) := rx.feed p
    let (replies, events) := feedAll rx ps
    (reply.toList ++ replies, event.toList.map (fun event => (p.fileId, event)) ++ events)

/-- The answers and events of one transfer. -/
def repliesOf (id : UInt8) (replies : List FileTransferPayload) : List FileTransferPayload :=
  replies.filter fun p => p.fileId = id

def eventsOf (id : UInt8) (events : List (UInt8 × FileTransferEvent)) : List FileTransferEvent :=
  (events.filter fun e => e.1 = id).map Prod.snd

/-- Whether a payload is the end of its transfer. -/
def isEnd (p : FileTransferPayload) : Bool := p.op = .lastData || p.op = .firstAndOnlyData

/-- The piece that a payload brings. -/
def pieceOf (p : FileTransferPayload) : FileTransferEvent := .data p.payload (isEnd p)

variable {rx : FileTransferReceiver}

theorem feedEvent_reply {fileId : UInt8} {old status : Option FileTransferStatus}
    {ev : FileTransferEvent} {reply : FileTransferPayload}
    (h : FileTransferReceiver.feedEvent fileId old ev = some (status, some reply, event)) :
    reply.fileId = fileId := by
  unfold FileTransferReceiver.feedEvent at h
  split at h
  · cases h
    rfl
  · split at h
    · cases h
      rfl
    · cases h
  · split at h
    · cases h
    · cases h
  · split at h
    · cases h
    · cases h
  · cases h
  · cases h

theorem feed_frame (rx : FileTransferReceiver) (p : FileTransferPayload) :
    (rx.feed p).1.server = rx.server ∧
      (∀ i, i ≠ p.fileId → (rx.feed p).1.incoming i = rx.incoming i) ∧
      ∀ reply, (rx.feed p).2.1 = some reply → reply.fileId = p.fileId := by
  unfold FileTransferReceiver.feed
  split
  · exact ⟨rfl, fun i _ => rfl, fun reply h => by cases h⟩
  · split
    · exact ⟨rfl, fun i _ => rfl, fun reply h => by cases h⟩
    · split
      · exact ⟨rfl, fun i _ => rfl, fun reply h => by cases h⟩
      · next status remote event hevent =>
        refine ⟨rfl, fun i hne => if_neg hne, ?_⟩
        intro reply hreply
        dsimp only at hreply
        rw [hreply] at hevent
        exact feedEvent_reply hevent

/-- Pieces of which only the last may be the end. -/
inductive Pieces : List FileTransferPayload → Prop
  | nil : Pieces []
  | last (p : FileTransferPayload) (hend : isEnd p = true) : Pieces [p]
  | cons (p : FileTransferPayload) (ps : List FileTransferPayload)
      (hop : p.op = .firstData ∨ p.op = .data) (h : Pieces ps) : Pieces (p :: ps)

theorem pieces_of_begun {n : Nat}
    (h : packets.map (·.op) = List.replicate n .data) : Pieces packets := by
  induction packets generalizing n with
  | nil => exact .nil
  | cons p ps ih =>
    cases n with
    | zero => cases h
    | succ n =>
      rw [List.map_cons, List.replicate_succ] at h
      obtain ⟨hop, hrest⟩ := List.cons.inj h
      exact .cons p ps (.inr hop) (ih hrest)

theorem pieces_of_ended {n : Nat}
    (h : packets.map (·.op) = List.replicate n .data ++ [.lastData]) : Pieces packets := by
  induction packets generalizing n with
  | nil =>
    cases n with
    | zero => cases h
    | succ n => cases h
  | cons p ps ih =>
    cases n with
    | zero =>
      obtain ⟨hop, hrest⟩ := List.cons.inj h
      rw [List.map_eq_nil_iff.mp hrest]
      apply Pieces.last
      unfold isEnd
      rw [show p.op = _ from hop]
      rfl
    | succ n =>
      rw [List.map_cons, List.replicate_succ] at h
      obtain ⟨hop, hrest⟩ := List.cons.inj h
      exact .cons p ps (.inr hop) (ih hrest)

theorem Begun.pieces (h : Begun (packets.map (·.op))) :
    Pieces packets := by
  rcases h with hnil | ⟨n, hops⟩
  · rw [List.map_eq_nil_iff.mp hnil]
    exact .nil
  · cases packets with
    | nil => cases hops
    | cons p ps =>
      obtain ⟨hop, hrest⟩ := List.cons.inj hops
      exact .cons p ps (.inl hop) (pieces_of_begun hrest)

theorem Whole.pieces (h : Whole (packets.map (·.op))) :
    Pieces packets := by
  cases packets with
  | nil => rcases h with hops | ⟨n, hops⟩ <;> cases hops
  | cons p ps =>
    rcases h with hops | ⟨n, hops⟩
    · obtain ⟨hop, hrest⟩ := List.cons.inj hops
      rw [List.map_eq_nil_iff.mp hrest]
      apply Pieces.last
      unfold isEnd
      rw [show p.op = _ from hop]
      rfl
    · obtain ⟨hop, hrest⟩ := List.cons.inj hops
      exact .cons p ps (.inl hop) (pieces_of_ended hrest)

theorem tryFrom_plain (h : p.op = .firstData ∨ p.op = .data) :
    FileTransferEvent.tryFrom p = some (.data p.payload false) ∧ isEnd p = false := by
  unfold FileTransferEvent.tryFrom isEnd
  rcases h with hop | hop
  · rw [hop]
    exact ⟨rfl, rfl⟩
  · rw [hop]
    exact ⟨rfl, rfl⟩

theorem tryFrom_end (h : isEnd p = true) :
    FileTransferEvent.tryFrom p = some (.data p.payload true) := by
  unfold isEnd at h
  rw [Bool.or_eq_true, decide_eq_true_iff, decide_eq_true_iff] at h
  unfold FileTransferEvent.tryFrom
  rcases h with hop | hop
  · rw [hop]
  · rw [hop]

/-- A payload of another transfer is heard of there only. -/
theorem feedAll_other (rx : FileTransferReceiver) (ps : List FileTransferPayload)
    (hne : p.fileId ≠ id) :
    repliesOf id (feedAll rx (p :: ps)).1 = repliesOf id (feedAll (rx.feed p).1 ps).1 ∧
      eventsOf id (feedAll rx (p :: ps)).2 = eventsOf id (feedAll (rx.feed p).1 ps).2 := by
  have hreply := (feed_frame rx p).2.2
  unfold repliesOf eventsOf
  rw [feedAll]
  dsimp only
  constructor
  · rw [List.filter_append, List.filter_eq_nil_iff.mpr, List.nil_append]
    intro reply hmem
    rw [hreply reply (Option.mem_toList.mp hmem)]
    simpa using hne
  · rw [List.filter_append, List.filter_eq_nil_iff.mpr, List.nil_append]
    intro e hmem
    obtain ⟨event, -, rfl⟩ := List.mem_map.mp hmem
    simpa using hne

/-- A payload of the transfer that the receiver takes. -/
theorem feedAll_own (ps : List FileTransferPayload) (hid : p.fileId = id)
    (hvalid : rx.validRange id = true) {ev : FileTransferEvent} {status : Option FileTransferStatus}
    {reply : Option FileTransferPayload} (hev : FileTransferEvent.tryFrom p = some ev)
    (hfed : FileTransferReceiver.feedEvent id (rx.incoming id) ev = some (status, reply, event)) :
    (rx.feed p).1 = rx.setSlot id status ∧
      repliesOf id (feedAll rx (p :: ps)).1 =
        reply.toList ++ repliesOf id (feedAll (rx.setSlot id status) ps).1 ∧
      eventsOf id (feedAll rx (p :: ps)).2 =
        event :: eventsOf id (feedAll (rx.setSlot id status) ps).2 := by
  have hfeed : rx.feed p = (rx.setSlot id status, reply, some event) := by
    unfold FileTransferReceiver.feed
    rw [hev]
    dsimp only
    rw [hid, if_neg (not_not.mpr hvalid), hfed]
  have hreply : ∀ r, reply = some r → r.fileId = id := by
    intro r hr
    rw [hr] at hfed
    exact feedEvent_reply hfed
  unfold repliesOf eventsOf
  rw [feedAll, hfeed]
  dsimp only
  refine ⟨rfl, ?_, ?_⟩
  · rw [List.filter_append]
    congr 1
    apply List.filter_eq_self.mpr
    intro r hr
    simpa using hreply r (Option.mem_toList.mp hr)
  · simp [hid]

theorem setSlot_incoming (rx : FileTransferReceiver) (id : UInt8)
    (status : Option FileTransferStatus) : (rx.setSlot id status).incoming id = status := if_pos rfl

/-- **Pieces in order** raise themselves, and the end is acknowledged. -/
theorem feedAll_pieces {feeds : List FileTransferPayload} (h : Pieces packets)
    (hvalid : rx.validRange id = true) (hfeeds : feeds.filter (fun p => p.fileId = id) = packets)
    (hslot : packets ≠ [] → ∃ status, rx.incoming id = some status) :
    repliesOf id (feedAll rx feeds).1 = (packets.filter isEnd).map (fun _ => ⟨id, .success, []⟩) ∧
      eventsOf id (feedAll rx feeds).2 = packets.map pieceOf := by
  induction feeds generalizing rx packets with
  | nil =>
    rw [List.filter_nil] at hfeeds
    rw [← hfeeds]
    exact ⟨rfl, rfl⟩
  | cons p feeds ih =>
    by_cases hid : p.fileId = id
    · rw [List.filter_cons_of_pos (by simpa using hid)] at hfeeds
      obtain ⟨status, hstatus⟩ := hslot (by rw [← hfeeds]; exact List.cons_ne_nil _ _)
      cases h with
      | nil => cases hfeeds
      | last q hend =>
        obtain ⟨rfl, hrest⟩ := List.cons.inj hfeeds
        have hfed : FileTransferReceiver.feedEvent id (rx.incoming id) (.data p.payload true) =
            some (none, some ⟨id, .success, []⟩, .data p.payload true) := by
          rw [hstatus]
          rfl
        obtain ⟨-, hreplies, hevents⟩ := feedAll_own feeds hid hvalid (tryFrom_end hend) hfed
        have hvalid' : (rx.setSlot id none).validRange id = true := hvalid
        obtain ⟨hreplies', hevents'⟩ := ih .nil hvalid' hrest (fun hne => absurd rfl hne)
        rw [hreplies, hreplies', hevents, hevents']
        simp [hend, pieceOf]
      | cons q qs hop h =>
        obtain ⟨rfl, hrest⟩ := List.cons.inj hfeeds
        obtain ⟨hev, hend⟩ := tryFrom_plain hop
        let status' : FileTransferStatus :=
          { status with progress := status.progress + p.payload.length, state := .sending }
        have hfed : FileTransferReceiver.feedEvent id (rx.incoming id) (.data p.payload false) =
            some (some status', none, .data p.payload false) := by
          rw [hstatus]
          rfl
        obtain ⟨-, hreplies, hevents⟩ := feedAll_own feeds hid hvalid hev hfed
        have hvalid' : (rx.setSlot id (some status')).validRange id = true := hvalid
        obtain ⟨hreplies', hevents'⟩ := ih h hvalid' hrest
          (fun _ => ⟨status', setSlot_incoming rx id (some status')⟩)
        rw [hreplies, hreplies', hevents, hevents']
        simp [hend, pieceOf]
    · rw [List.filter_cons_of_neg (by simpa using hid)] at hfeeds
      obtain ⟨hserver, hsame, -⟩ := feed_frame rx p
      obtain ⟨hreplies, hevents⟩ := feedAll_other rx feeds hid
      rw [hreplies, hevents]
      apply ih h _ hfeeds
      · rw [hsame id (Ne.symm hid)]
        exact hslot
      · unfold FileTransferReceiver.validRange at hvalid ⊢
        rw [hserver]
        exact hvalid

/-! ## From set-up to completion -/

theorem validRange_peer (hserver : rx.server = !tx.server)
    (hvalid : tx.validRange id = true) : rx.validRange id = true := by
  unfold FileTransferTransmitter.validRange at hvalid
  unfold FileTransferReceiver.validRange
  rw [hserver]
  cases hs : tx.server with
  | true =>
    rw [hs] at hvalid
    exact hvalid
  | false =>
    rw [hs] at hvalid
    exact hvalid

/-- The pieces of a transfer as the receiver raises them. -/
theorem pieces_begun (h : Begun (packets.map (·.op))) :
    packets.map pieceOf = (packets.map (·.payload)).map (fun piece => .data piece false) ∧
      packets.filter isEnd = [] := by
  have hplain : ∀ p ∈ packets, isEnd p = false := by
    intro p hp
    have hop : p.op = .firstData ∨ p.op = .data := by
      rcases h with hnil | ⟨n, hops⟩
      · rw [List.map_eq_nil_iff.mp hnil] at hp
        cases hp
      · have hmem : p.op ∈ packets.map (·.op) := List.mem_map_of_mem hp
        rw [hops] at hmem
        cases List.mem_cons.mp hmem with
        | inl hfirst => exact .inl hfirst
        | inr hdata => exact .inr (List.eq_of_mem_replicate hdata)
    exact (tryFrom_plain hop).2
  constructor
  · rw [List.map_map]
    apply List.map_congr_left
    intro p hp
    unfold pieceOf
    rw [hplain p hp]
    rfl
  · apply List.filter_eq_nil_iff.mpr
    intro p hp
    rw [hplain p hp]
    exact Bool.false_ne_true

theorem Whole.split (h : Whole (packets.map (·.op))) :
    ∃ front last, packets = front ++ [last] ∧ Begun (front.map (·.op)) ∧ isEnd last = true := by
  rcases List.eq_nil_or_concat packets with rfl | ⟨front, last, rfl⟩
  · rcases h with hops | ⟨n, hops⟩ <;> cases hops
  · refine ⟨front, last, List.concat_eq_append, ?_⟩
    rw [List.concat_eq_append, List.map_append] at h
    rcases h with hops | ⟨n, hops⟩
    · have hops' : front.map (·.op) ++ [last].map (·.op) = [] ++ [.firstAndOnlyData] := hops
      obtain ⟨hfront, hlast⟩ := List.append_inj' hops' rfl
      refine ⟨.inl hfront, ?_⟩
      unfold isEnd
      rw [show last.op = _ from (List.cons.inj hlast).1]
      rfl
    · rw [← List.cons_append] at hops
      obtain ⟨hfront, hlast⟩ := List.append_inj' hops rfl
      refine ⟨.inr ⟨n, hfront⟩, ?_⟩
      unfold isEnd
      rw [show last.op = _ from (List.cons.inj hlast).1]
      rfl

/-- **What a transfer comes to**, for its transmitter and for a receiver that is fed its payloads
in order. -/
structure Transferred (server : Bool) (id : UInt8) (source : Bytes) (setup : FileTransferPayload)
    (s : Sender) : Prop where
  within : ∀ e ∈ s.emitted, e.2.fileId = id → e.2.payload.length ≤ e.1
  bounded : (packetsOf id s.emitted).length ≤ max 1 source.length
  session : ∃ session, s.tx.outgoing id = some session ∧
    (session.state = .waitingForSuccess ∧ Whole ((packetsOf id s.emitted).map (·.op)) ∧
        content (packetsOf id s.emitted) = source ∨
      (session.state = .pause ∨
        session.state = .sending ∧ ∀ chunkSize, 0 < chunkSize → (s.tx.poll chunkSize).2 ≠ none) ∧
        Begun ((packetsOf id s.emitted).map (·.op)) ∧
        content (packetsOf id s.emitted) <+: source ∧
        (packetsOf id s.emitted ≠ [] → content (packetsOf id s.emitted) ≠ source))
  received : ∃ opening, FileTransferEvent.tryFrom setup = some opening ∧
    ∀ (rx : FileTransferReceiver) (feeds : List FileTransferPayload), rx.server = !server →
      rx.incoming id = none →
      feeds.filter (fun p => p.fileId = id) = setup :: packetsOf id s.emitted →
      ∃ (pieces : List Bytes) (last : Option Bytes), pieces.flatten ++ last.getD [] = content (packetsOf id s.emitted) ∧
        (last.isSome ↔ Whole ((packetsOf id s.emitted).map (·.op))) ∧
        eventsOf id (feedAll rx feeds).2 =
          opening :: (pieces.map (fun piece => .data piece false) ++
            last.toList.map fun piece => .data piece true) ∧
        repliesOf id (feedAll rx feeds).1 =
          ⟨id, .start, []⟩ :: last.toList.map fun _ => ⟨id, .success, []⟩

theorem mem_allIds (hvalid : tx.validRange id = true) :
    id ∈ FileTransferTransmitter.allIds := by
  have hlt : id.toNat < 255 := by
    unfold FileTransferTransmitter.validRange at hvalid
    split at hvalid
    · rw [Bool.and_eq_true, decide_eq_true_iff, decide_eq_true_iff] at hvalid
      exact UInt8.lt_iff_toNat_lt.mp hvalid.2
    · rw [decide_eq_true_iff] at hvalid
      have := UInt8.lt_iff_toNat_lt.mp hvalid
      exact Nat.lt_trans this (by decide)
  exact List.mem_map.mpr ⟨id.toNat, List.mem_range.mpr hlt, UInt8.ofNat_toNat⟩

/-- A session that sends is polled, unless another one is before it. -/
theorem poll_of_sending
    (hid : id ∈ FileTransferTransmitter.allIds) (hget : tx.outgoing id = some session)
    (hsending : session.state = .sending) (chunkSize : Nat) : (tx.poll chunkSize).2 ≠ none := by
  rcases poll_cases tx chunkSize with ⟨-, hnone⟩ | ⟨i, polled, -, hpolled, hpoll⟩
  · exact absurd hsending (hnone id hid session hget)
  · rw [hpoll]
    unfold FileTransferOutgoing.pollSend
    rw [if_neg (not_not.mpr hpolled)]
    exact Option.some_ne_none _

theorem content_take_ne (h : Cut source session packets) (hlt : session.progress < source.length) :
    content packets ≠ source := by
  intro heq
  have hlen := congrArg List.length (h.content_eq.symm.trans heq)
  rw [List.length_take] at hlen
  omega

theorem flatten_map_payload (packets : List FileTransferPayload) :
    (packets.map (·.payload)).flatten = content packets := by
  unfold content
  rw [List.flatMap_def]

/-- The receiver raises what a transfer has sent. -/
theorem received_of_cut {feeds : List FileTransferPayload} {size : Nat}
    (hops : Begun (packets.map (·.op)) ∨ Whole (packets.map (·.op)))
    (hvalid : rx.validRange id = true) (hslot : rx.incoming id = none)
    (hopening : FileTransferEvent.tryFrom setup = some (.setup size fileType setupData))
    (hfeeds : feeds.filter (fun p => p.fileId = id) = setup :: packets) :
    repliesOf id (feedAll rx feeds).1 =
        ⟨id, .start, []⟩ :: (packets.filter isEnd).map (fun _ => ⟨id, .success, []⟩) ∧
      eventsOf id (feedAll rx feeds).2 =
        .setup size fileType setupData :: packets.map pieceOf := by
  have hpieces : Pieces packets := by
    cases hops with
    | inl hbegun => exact hbegun.pieces
    | inr hwhole => exact hwhole.pieces
  induction feeds generalizing rx with
  | nil => cases hfeeds
  | cons p feeds ih =>
    by_cases hid : p.fileId = id
    · rw [List.filter_cons_of_pos (by simpa using hid)] at hfeeds
      obtain ⟨rfl, hrest⟩ := List.cons.inj hfeeds
      let status : FileTransferStatus := { total := size, progress := 0, state := .sending }
      have hfed : FileTransferReceiver.feedEvent id (rx.incoming id)
          (.setup size fileType setupData) =
            some (some status, some ⟨id, .start, []⟩, .setup size fileType setupData) := by
        rw [hslot]
        rfl
      obtain ⟨-, hreplies, hevents⟩ := feedAll_own feeds hid hvalid hopening hfed
      have hvalid' : (rx.setSlot id (some status)).validRange id = true := hvalid
      obtain ⟨hreplies', hevents'⟩ := feedAll_pieces hpieces hvalid' hrest
        (fun _ => ⟨status, setSlot_incoming rx id (some status)⟩)
      rw [hreplies, hreplies', hevents, hevents']
      exact ⟨rfl, rfl⟩
    · rw [List.filter_cons_of_neg (by simpa using hid)] at hfeeds
      obtain ⟨hserver, hsame, -⟩ := feed_frame rx p
      obtain ⟨hreplies, hevents⟩ := feedAll_other rx feeds hid
      rw [hreplies, hevents]
      apply ih _ _ hfeeds
      · unfold FileTransferReceiver.validRange at hvalid ⊢
        rw [hserver]
        exact hvalid
      · rw [hsame id (Ne.symm hid)]
        exact hslot

/-- A transfer that is on its way comes to what it should. -/
theorem Underway.transferred (h : Underway id source s)
    (hvalid : tx.validRange id = true) {size : Nat}
    (hopening : FileTransferEvent.tryFrom setup = some (.setup size fileType setupData)) :
    Transferred tx.server id source setup s := by
  obtain ⟨session, hget, hcut⟩ := h.session
  let packets := packetsOf id s.emitted
  have hstate : (session.state = .waitingForSuccess ∧ Whole (packets.map (·.op)) ∧
        content packets = source) ∨
      (session.state = .sending ∨ session.state = .pause) ∧ Begun (packets.map (·.op)) ∧
        content packets <+: source ∧ (packets ≠ [] → content packets ≠ source) := by
    cases hcut.live with
    | inl hwaiting =>
      obtain ⟨hprogress, hwhole, -⟩ := hcut.whole hwaiting
      refine .inl ⟨hwaiting, hwhole, ?_⟩
      rw [hcut.content_eq, hprogress, List.take_length]
    | inr hopen =>
      obtain ⟨hbegun, -, -, hlt⟩ := hcut.begun hopen
      refine .inr ⟨hopen, hbegun, ?_, fun hne => content_take_ne hcut (hlt hne)⟩
      rw [hcut.content_eq]
      exact List.take_prefix _ _
  have hbounded : packets.length ≤ max 1 source.length := by
    cases hcut.live with
    | inl hwaiting => exact (hcut.whole hwaiting).2.2
    | inr hopen =>
      have hcount := (hcut.begun hopen).2.1
      have hprogress := hcut.progress_le
      show (packetsOf id s.emitted).length ≤ _
      omega
  refine ⟨h.within, hbounded, ⟨session, hget, ?_⟩, _, hopening, ?_⟩
  · rcases hstate with hwhole | ⟨hopen, hrest⟩
    · exact .inl hwhole
    · refine .inr ⟨?_, hrest⟩
      cases hopen with
      | inl hsending =>
        refine .inr ⟨hsending, ?_⟩
        intro chunkSize _
        exact poll_of_sending (mem_allIds hvalid) hget hsending chunkSize
      | inr hpause => exact .inl hpause
  · intro rx feeds hserver hslot hfeeds
    have hrange := validRange_peer hserver hvalid
    rcases hstate with ⟨-, hwhole, -⟩ | ⟨-, hbegun, -⟩
    · obtain ⟨hreplies, hevents⟩ := received_of_cut (.inr hwhole) hrange hslot hopening hfeeds
      obtain ⟨front, last, hsplit, hfront, hend⟩ := hwhole.split
      obtain ⟨hpieces, hnone⟩ := pieces_begun hfront
      refine ⟨front.map (·.payload), some last.payload, ?_, by simpa using hwhole, ?_, ?_⟩
      · show _ = content packets
        rw [hsplit, content_append, flatten_map_payload]
        rfl
      · rw [hevents, hsplit, List.map_append, hpieces]
        simp [pieceOf, hend]
      · rw [hreplies, hsplit, List.filter_append, hnone]
        simp [hend]
    · obtain ⟨hreplies, hevents⟩ := received_of_cut (.inl hbegun) hrange hslot hopening hfeeds
      obtain ⟨hpieces, hnone⟩ := pieces_begun hbegun
      have hnotWhole : ¬Whole (packets.map (·.op)) := by
        intro hwhole
        obtain ⟨front, last, hsplit, -, hend⟩ := hwhole.split
        have hmem : last ∈ packets.filter isEnd := by
          rw [List.mem_filter, hsplit]
          exact ⟨by simp, hend⟩
        rw [hnone] at hmem
        cases hmem
      refine ⟨packets.map (·.payload), none, ?_, by simpa using hnotWhole, ?_, ?_⟩
      · rw [flatten_map_payload]
        exact List.append_nil _
      · rw [hevents]
        show _ :: packets.map pieceOf = _
        rw [hpieces]
        simp
      · rw [hreplies]
        show _ :: (packets.filter isEnd).map _ = _
        rw [hnone]
        rfl

theorem setup_opens {tx' : FileTransferTransmitter} (hindexed : Indexed tx)
    (hsetup : tx.setup id fileType setupData source = some (tx', setup)) :
    Underway id source ⟨tx', []⟩ ∧
      ∃ size type data, FileTransferEvent.tryFrom setup = some (.setup size type data) := by
  unfold FileTransferTransmitter.setup at hsetup
  split at hsetup
  · cases hsetup
  · split at hsetup
    · cases hsetup
    · let session : FileTransferOutgoing :=
        { fileSize := source.length, fileType, setupData, fileId := id, total := source.length,
          progress := 0, source, state := .pause }
      have hslot : (tx.setSlot id (some session)).outgoing id = some session := by
        rw [setSlot_outgoing, if_pos rfl]
      have hreconcile : (tx.setSlot id (some session)).reconcile id = tx.setSlot id (some session) :=
        reconcile_of_not hslot rfl
      obtain ⟨htx, hpayload⟩ := Prod.mk.inj (Option.some.inj hsetup)
      have htx' : tx' = tx.setSlot id (some session) := htx.symm.trans hreconcile
      constructor
      · refine ⟨?_, ⟨session, ?_, ?_⟩, fun e he => by cases he⟩
        · rw [htx']
          apply hindexed.setSlot
          intro other hother
          rw [← Option.some.inj hother]
        · rw [htx']
          exact hslot
        · refine ⟨rfl, rfl, rfl, Nat.zero_le _, ?_, ?_, .inr (.inr rfl)⟩
          · intro hwaiting
            cases hwaiting
          · intro _
            exact ⟨.inl rfl, Nat.le_refl _, fun _ => rfl, fun hne => absurd rfl hne⟩
      · rw [← hpayload]
        unfold FileTransferEvent.tryFrom
        dsimp only
        rw [if_neg]
        · exact ⟨_, _, _, rfl⟩
        · rw [List.length_append, List.length_append]
          unfold toBeBytes64 toBeBytes
          simp only [List.length_map, List.length_cons, List.length_nil]
          omega

/-- **A file arrives as it was sent**: in pieces no larger than the budgets and with one
completion, however the transmitter is used beside it. -/
theorem file_transfer (server : Bool) {before after : List SenderAct} {s0 s : Sender} {id : UInt8}
    {fileType : UInt16} {setupData source : Bytes} {tx : FileTransferTransmitter}
    {setup : FileTransferPayload} (hbefore : run senderStep ⟨.new server, []⟩ before = some s0)
    (hvalid : s0.tx.validRange id = true)
    (hsetup : s0.tx.setup id fileType setupData source = some (tx, setup))
    (hafter : ∀ act ∈ after, Undisturbed id act) (hrun : run senderStep ⟨tx, []⟩ after = some s) :
    Transferred s0.tx.server id source setup s := by
  have hindexed : Indexed s0.tx :=
    run_invariant (fun s => Indexed s.tx) (fun s act s' h hstep => indexed_step hstep h)
      (indexed_new server) hbefore
  obtain ⟨hunderway, size, type, data, hopening⟩ := setup_opens hindexed hsetup
  have hlast : Underway id source s :=
    run_invariant_of_allSteps (Underway id source) (fun _ act => Undisturbed id act)
      (fun s act s' h hact hstep => h.step hact hstep) hunderway
      (allSteps_of_mem (fun act hmem _ => hafter act hmem) _) hrun
  exact hlast.transferred hvalid hopening

/-- Five bytes in pieces of two, with a pause before the last piece. -/
def pausedSend : List SenderAct :=
  [.feed ⟨0, .start, []⟩, .poll 2, .poll 2, .feed ⟨0, .pause, []⟩, .poll 2,
    .feed ⟨0, .start, []⟩, .poll 2]

theorem file_transfer_paused :
    ∃ tx setup s, (FileTransferTransmitter.new false).setup 0 7 [] [1, 2, 3, 4, 5] = some (tx, setup) ∧
      run senderStep ⟨tx, []⟩ pausedSend = some s ∧ Transferred false 0 [1, 2, 3, 4, 5] setup s ∧
      (packetsOf 0 s.emitted).map (·.op) = [.firstData, .data, .lastData] := by
  have hnew : run senderStep ⟨.new false, []⟩ [] = some ⟨.new false, []⟩ := rfl
  have hallowed : ∀ act ∈ pausedSend, Undisturbed 0 act := by
    intro act hact
    simp only [pausedSend, List.mem_cons, List.not_mem_nil, or_false] at hact
    rcases hact with rfl | rfl | rfl | rfl | rfl | rfl | rfl
    all_goals simp [Undisturbed]
  have hops : ((((FileTransferTransmitter.new false).setup 0 7 [] [1, 2, 3, 4, 5]).bind fun begun =>
      run senderStep ⟨begun.1, []⟩ pausedSend).map fun s => (packetsOf 0 s.emitted).map (·.op)) =
        some [.firstData, .data, .lastData] := by
    decide
  obtain ⟨s, hs, hops⟩ := Option.map_eq_some_iff.mp hops
  obtain ⟨⟨tx, setup⟩, hsetup, hrun⟩ := Option.bind_eq_some_iff.mp hs
  exact ⟨tx, setup, s, hsetup, hrun,
    file_transfer false hnew (by decide) hsetup hallowed hrun, hops⟩

end Catplay.Analysis.Link
