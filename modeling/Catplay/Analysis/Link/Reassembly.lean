import Catplay.Analysis.Link.Exclusivity
import Catplay.Analysis.Link.Processing

/-!
# Reassembly of what arrives out of order

Beside the link runs a log of the packets it has processed since the data phase began, each
with the number of packets processed when it was read. Position `i` of the log belongs to
the number `seqAt base (i + 1)`, and a buffered packet waits for one position less than half
a lap ahead (`Waits`). So the eight bits of a number determine the position, whatever the
peer sends: packets are processed one position after the other, and never in another lap
than the one they were read in (`reassembly_inOrder`).
-/

set_option autoImplicit false

namespace Catplay.Analysis.Link

open Catplay.Library Catplay.Library.Run Catplay.Model.Link

/-! ## The log -/

/-- The history of a data phase. -/
structure Log where
  /-- The number of the peer when the data phase began. -/
  base : Option ModSeq8
  /-- The packets processed, with the length of the log when they were read. -/
  taken : List (Packet × Nat)
  /-- The length of the log when the buffered packets were read, by their numbers. -/
  arrived : ByteMap Nat

namespace Log

def start (l : LinkLayer) : Log := { base := l.peerSeq, taken := [], arrived := .empty }

/-- A packet from the buffer is entered with the time of its arrival. -/
def stamp (log : Log) (q : Packet) : Packet × Nat :=
  (q, (log.arrived q.header.seq).getD log.taken.length)

/-- A packet that is read is buffered, or it is processed with those that follow it in the
buffer. -/
def read (log : Log) (l : LinkLayer) (p : Packet) : Log :=
  if Buffers l p then
    { log with arrived := log.arrived.insert p.header.seq log.taken.length }
  else
    match processed l p with
    | [] => log
    | p :: qs => { log with taken := log.taken ++ (p, log.taken.length) :: qs.map log.stamp }

/-- A call in the data phase; before it the log is empty. -/
def note (s : Session) (call : Session.Call) (t : Session) (log : Log) : Log :=
  if s.link.status.isData then
    match call with
    | .read (.packet p) => if t.link.isError then log else log.read s.link p
    | _ => log
  else start t.link

end Log

/-! ## Positions -/

/-- Every buffered packet waits for a position from `first` on that is less than half a lap
after position `next`, and for the one it was read for. -/
def Waits (base : ModSeq8) (first next : Nat) (buffer : ByteMap Packet)
    (arrived : ByteMap Nat) : Prop :=
  ∀ k q, buffer k = some q → q.header.seq = k ∧
    ∃ i a, first ≤ i ∧ i < next + 128 ∧ k = seqAt base (i + 1) ∧ arrived k = some a ∧
      a ≤ i ∧ i < a + 128

variable {arrived : ByteMap Nat} {base : ModSeq8} {first next : Nat} {l l' : LinkLayer} {log : Log}
  {p : Packet} {c c' : Core} {frames : List PacketOrDetect} {call : Session.Call}

theorem Waits.weaken {next' : Nat} {buffer : ByteMap Packet}
    (h : Waits base first next buffer arrived) (hnext : next ≤ next') :
    Waits base first next' buffer arrived := by
  intro k q hq
  obtain ⟨hseq, i, a, hlow, hhigh, hrest⟩ := h k q hq
  exact ⟨hseq, i, a, hlow, by omega, hrest⟩

/-- With nothing buffered for the position `first` all packets wait for later ones. -/
theorem Waits.skip {buffer : ByteMap Packet} (h : Waits base first next buffer arrived)
    (hgap : buffer (seqAt base (first + 1)) = none) :
    Waits base (first + 1) next buffer arrived := by
  intro k q hq
  obtain ⟨hseq, i, a, hlow, hhigh, hk, hrest⟩ := h k q hq
  have hne : i ≠ first := by
    rintro rfl
    rw [← hk, hq] at hgap
    cases hgap
  exact ⟨hseq, i, a, by omega, hhigh, hk, hrest⟩

theorem Waits.remove {buffer : ByteMap Packet} (h : Waits base first next buffer arrived) :
    Waits base (first + 1) next (buffer.remove (seqAt base (first + 1))) arrived := by
  refine Waits.skip (fun k q hq => ?_) (by simp [ByteMap.remove_apply])
  rw [ByteMap.remove_apply] at hq
  split at hq
  · cases hq
  · exact h k q hq

/-- **The loop over the buffer** takes the packets of consecutive positions, each one read for
the position it is taken at, and stops before the first gap. -/
theorem Waits.drain {fuel : Nat} (first : Nat) {buffer : ByteMap Packet}
    (h : Waits base first next buffer arrived) (hnext : next ≤ first) (hfuel : buffer.size ≤ fuel) :
    (∀ j q, (bufferedFrom fuel buffer (seqAt base (first + 1)))[j]? = some q →
      q.header.seq = seqAt base (first + j + 1) ∧
        ∃ a, arrived q.header.seq = some a ∧ a ≤ first + j ∧ first + j < a + 128) ∧
    Waits base (first + (bufferedFrom fuel buffer (seqAt base (first + 1))).length + 1) next
      (drained fuel buffer (seqAt base (first + 1))) arrived ∧
    ∀ last, lastSeq last (bufferedFrom fuel buffer (seqAt base (first + 1)))
        (seqAt base (first + 1)) =
      if bufferedFrom fuel buffer (seqAt base (first + 1)) = [] then last
      else some (seqAt base
        (first + (bufferedFrom fuel buffer (seqAt base (first + 1))).length)) := by
  induction fuel generalizing first buffer with
  | zero =>
    have hempty := ByteMap.eq_none_of_size_eq_zero (Nat.le_zero.mp hfuel)
    refine ⟨fun j q hq => ?_, h.skip (hempty _), fun last => rfl⟩
    simp [bufferedFrom] at hq
  | succ fuel ih =>
    unfold bufferedFrom drained
    cases hq : buffer (seqAt base (first + 1)) with
    | none =>
      refine ⟨fun j q hbad => ?_, h.skip hq, fun last => rfl⟩
      simp at hbad
    | some q =>
      have hsmaller := ByteMap.size_remove_lt hq
      obtain ⟨htaken, hwaits, hlast⟩ := ih (first + 1) h.remove (by omega) (by omega)
      rw [seqAt_succ base (first + 1)] at htaken hwaits hlast
      dsimp only
      refine ⟨?_, ?_, ?_⟩
      · intro j r hr
        cases j with
        | zero =>
          obtain rfl : q = r := by simpa using hr
          obtain ⟨hseq, i, a, hlow, hhigh, hk, harrived, ha, ha'⟩ := h _ q hq
          have hi : i = first := by
            have hinj := seqAt_inj base (i := first + 1) (j := i + 1) (by omega) (by omega) hk
            omega
          rw [hi] at ha ha'
          exact ⟨hseq, a, by rw [hseq]; exact harrived, ha, ha'⟩
        | succ j =>
          have hj : first + (j + 1) = first + 1 + j := by omega
          rw [hj]
          exact htaken j r (by simpa using hr)
      · rw [List.length_cons]
        have hlen : ∀ n, first + (n + 1) + 1 = first + 1 + n + 1 := by
          intro n
          omega
        rw [hlen]
        exact hwaits
      · intro last
        rw [if_neg (by simp), lastSeq, hlast, List.length_cons]
        split
        · rename_i hnone
          rw [hnone]
          rfl
        · congr 2
          omega

/-! ## One call -/

/-- The link and its log: the number of the peer counts the log, the buffer waits for later
positions, and the log has the packets of all positions, read less than half a lap before
they were processed. -/
structure Reassembled (l : LinkLayer) (log : Log) : Prop where
  peerSeq : l.peerSeq = log.base.map fun base => seqAt base log.taken.length
  unknown : log.base = none → log.taken = [] ∧ ∀ k, l.outOfOrder k = none
  waits : ∀ base, log.base = some base →
    Waits base (log.taken.length + 1) log.taken.length l.outOfOrder log.arrived
  taken : ∀ base, log.base = some base → ∀ i q a, log.taken[i]? = some (q, a) →
    q.header.seq = seqAt base (i + 1) ∧ a ≤ i ∧ i < a + 128

/-- A link that enters the data phase has nothing in its buffer. -/
theorem Reassembled.start (h : ∀ k, l.outOfOrder k = none) :
    Reassembled l (Log.start l) := by
  refine ⟨?_, fun _ => ⟨rfl, h⟩, fun base _ k q hq => ?_, fun base _ i q a hi => ?_⟩
  · unfold Log.start
    cases l.peerSeq <;> simp
  · rw [h k] at hq
    cases hq
  · simp [Log.start] at hi

/-- What is neither buffered nor processed changes nothing. -/
theorem Reassembled.same (h : Reassembled l log)
    (hpeer : l'.peerSeq = l.peerSeq) (hbuffer : l'.outOfOrder = l.outOfOrder) :
    Reassembled l' log := by
  refine ⟨by rw [hpeer, h.peerSeq], ?_, ?_, h.taken⟩
  · rw [hbuffer]
    exact h.unknown
  · rw [hbuffer]
    exact h.waits

/-- **Buffering.** The number of a packet that is buffered determines its position. -/
theorem Reassembled.buffer (h : Reassembled l log)
    (hbuffers : Buffers l p) (hpeer : l'.peerSeq = l.peerSeq)
    (hbuffer : l'.outOfOrder = l.outOfOrder.insert p.header.seq p) :
    Reassembled l' (log.read l p) := by
  obtain ⟨-, -, peerSeq, hknown, hgt⟩ := id hbuffers
  have hread : log.read l p =
      { log with arrived := log.arrived.insert p.header.seq log.taken.length } := if_pos hbuffers
  obtain ⟨base, hbase, hseq⟩ : ∃ base, log.base = some base ∧
      seqAt base log.taken.length = peerSeq := by
    have hmap := h.peerSeq
    rw [hknown] at hmap
    obtain ⟨base, hbase, hseq⟩ := Option.map_eq_some_iff.mp hmap.symm
    exact ⟨base, hbase, hseq⟩
  -- the distance to the number that is due, between 1 and 127
  obtain ⟨i, hlow, hhigh, hi⟩ : ∃ i, log.taken.length < i ∧ i < log.taken.length + 128 ∧
      p.header.seq = seqAt base (i + 1) := by
    have hdist := gt_distance hgt
    refine ⟨log.taken.length + (p.header.seq - (peerSeq + 1)).toNat, by omega, by omega, ?_⟩
    rw [← hseq, ← seqAt_succ]
    exact seqAt_distance base log.taken.length p.header.seq
  rw [hread]
  refine ⟨by rw [hpeer, h.peerSeq], fun hnone => ?_, fun base' hbase' => ?_, h.taken⟩
  · rw [hbase] at hnone
    cases hnone
  · obtain rfl : base = base' := Option.some.inj (hbase.symm.trans hbase')
    intro k q hq
    rw [hbuffer, ByteMap.insert_apply] at hq
    dsimp only
    rw [ByteMap.insert_apply]
    split at hq
    · rename_i hk
      obtain rfl := Option.some.inj hq
      refine ⟨hk.symm, i, log.taken.length, by omega, hhigh, ?_, if_pos hk, by omega, by omega⟩
      rw [hk, hi]
    · rename_i hk
      rw [if_neg hk]
      exact h.waits base hbase k q hq

/-- **Processing.** The packets processed take the next positions. -/
theorem Reassembled.process (h : Reassembled l log) (hprocessed : processed l p ≠ [])
    (hpeer : l'.peerSeq = lastSeq l.peerSeq (processed l p) p.header.seq)
    (hbuffer : l'.outOfOrder = drained 256 l.outOfOrder (p.header.seq + 1)) :
    Reassembled l' (log.read l p) := by
  obtain ⟨peerSeq, hknown, hseq, hlist⟩ := processed_ne_nil hprocessed
  obtain ⟨base, hbase, hdue⟩ : ∃ base, log.base = some base ∧
      p.header.seq = seqAt base (log.taken.length + 1) := by
    have hmap := h.peerSeq
    rw [hknown] at hmap
    obtain ⟨base, hbase, hcount⟩ := Option.map_eq_some_iff.mp hmap.symm
    refine ⟨base, hbase, ?_⟩
    rw [seqAt_succ, hcount, hseq]
  have hnext : p.header.seq + 1 = seqAt base (log.taken.length + 1 + 1) := by
    rw [seqAt_succ, hdue]
  obtain ⟨hfollow, hwaits, hlast⟩ :=
    (h.waits base hbase).drain _ (by omega) (ByteMap.size_le l.outOfOrder)
  rw [← hnext] at hfollow hwaits hlast
  rw [hlist] at hpeer
  generalize hqs : bufferedFrom 256 l.outOfOrder (p.header.seq + 1) = qs
    at hfollow hwaits hlast hpeer hlist
  have hread : log.read l p =
      { log with taken := log.taken ++ (p, log.taken.length) :: qs.map log.stamp } := by
    have hnot : ¬ Buffers l p := by
      rintro ⟨-, -, peerSeq', hknown', hgt⟩
      obtain rfl := Option.some.inj (hknown.symm.trans hknown')
      rw [partialCmp_eq_iff.mpr hseq] at hgt
      cases hgt
    unfold Log.read
    rw [if_neg hnot, hlist]
  rw [hread]
  have hlength : (log.taken ++ (p, log.taken.length) :: qs.map log.stamp).length =
      log.taken.length + 1 + qs.length := by
    rw [List.length_append, List.length_cons, List.length_map]
    omega
  refine ⟨?_, fun hnone => ?_, fun base' hbase' => ?_, fun base' hbase' i q a hi => ?_⟩
  · dsimp only
    rw [hpeer, lastSeq, hlast, hbase, hlength, Option.map_some]
    split
    · rename_i hnil
      rw [hnil, hdue]
      rfl
    · rfl
  · rw [hbase] at hnone
    cases hnone
  · obtain rfl : base = base' := Option.some.inj (hbase.symm.trans hbase')
    dsimp only
    rw [hbuffer, hlength]
    exact hwaits.weaken (by omega)
  · obtain rfl : base = base' := Option.some.inj (hbase.symm.trans hbase')
    dsimp only at hi
    rcases Nat.lt_or_ge i log.taken.length with hlow | hhigh
    · rw [List.getElem?_append_left hlow] at hi
      exact h.taken base hbase i q a hi
    · rw [List.getElem?_append_right hhigh] at hi
      obtain ⟨j, rfl⟩ := Nat.exists_eq_add_of_le hhigh
      rw [Nat.add_sub_cancel_left] at hi
      cases j with
      | zero =>
        obtain ⟨rfl, rfl⟩ := Prod.mk.inj (Option.some.inj hi)
        exact ⟨hdue, by omega, by omega⟩
      | succ j =>
        rw [List.getElem?_cons_succ, List.getElem?_map] at hi
        obtain ⟨r, hr, hstamp⟩ := Option.map_eq_some_iff.mp hi
        obtain ⟨hnumber, b, harrived, hb, hb'⟩ := hfollow j r hr
        unfold Log.stamp at hstamp
        rw [harrived] at hstamp
        obtain ⟨rfl, rfl⟩ := Prod.mk.inj hstamp
        have hposition : log.taken.length + 1 + j = log.taken.length + (j + 1) := by omega
        rw [hposition] at hnumber hb hb'
        exact ⟨hnumber, hb, hb'⟩

/-- Transmission leaves the receiving side alone. -/
theorem emits_receiver {takens : List Bytes} (h : Core.Emits c takens c' frames) :
    c'.peerSeq = c.peerSeq ∧ c'.outOfOrder = c.outOfOrder := by
  induction h with
  | nil => exact ⟨rfl, rfl⟩
  | cons hmove hrest ih =>
    cases hmove <;> exact ih

/-- A call other than the reception of a packet leaves the receiving side alone. -/
theorem moves_receiver (h : Moves c call c' frames) (hcall : ∀ p, call ≠ .read (.packet p)) :
    c'.peerSeq = c.peerSeq ∧ c'.outOfOrder = c.outOfOrder := by
  cases h with
  | still | downgrade | close => exact ⟨rfl, rfl⟩
  | reconcile _ _ _ _ hemits => exact emits_receiver hemits
  | read frame c' delivered hreads =>
    cases hreads with
    | ignore | fail | detect | detectAnswered | legacy | downgraded => exact ⟨rfl, rfl⟩
    | early p | negotiate p | data p => exact absurd rfl (hcall p)

/-- A call that does not find the link in the data phase leaves the buffer alone. -/
theorem moves_buffer
    (h : Moves c call c' frames) (hphase : c.phase ≠ .data) : c'.outOfOrder = c.outOfOrder := by
  cases h with
  | still | downgrade | close => rfl
  | reconcile _ _ _ _ hemits => exact (emits_receiver hemits).2
  | read frame c' delivered hreads =>
    cases hreads with
    | ignore | fail | detect | detectAnswered | legacy | downgraded => rfl
    | early p => exact Core.receiveAck_outOfOrder c p
    | data _ _ _ hdata => exact absurd hdata hphase
    | negotiate p _ _ _ hneg =>
      have hsame : ((c.wake).receiveAck p).outOfOrder = c.outOfOrder := by
        rw [Core.receiveAck_outOfOrder]
        unfold Core.wake
        split <;> rfl
      have hadvance : ∀ c : Core, (c.advance p).outOfOrder = c.outOfOrder := by
        intro c
        unfold Core.advance
        split <;> rfl
      cases hneg with
      | ignored => exact hsame
      | unparsed => exact (hadvance _).trans hsame
      | exceeded | counter | accept | copy | opens => exact (hadvance _).trans hsame

/-- **A reception in the data phase** keeps the log right. -/
theorem Reassembled.readPacket
    (h : Reassembled l log) (hdata : l.status.isData = true) (hread : l.read (.packet p) = some l')
    (herror : l'.isError = false) : Reassembled l' (log.read l p) := by
  have hrunning : l.isError = false := by
    cases hstatus : l.status <;> simp_all [LinkLayer.isError, LinkStatus.isData]
  have hpacket : l.readPacket p = some l' := by
    unfold LinkLayer.read at hread
    rwa [if_neg (by rw [hrunning]; simp)] at hread
  obtain ⟨hpeer, hbuffer, -, -⟩ := readAck_frame l p
  obtain ⟨hpeer', hbuffer', -⟩ := readEak_frame (l.readAck p) p
  have hsame : processed (l.readAck p) p = processed l p := by
    unfold processed
    rw [hpeer, hbuffer]
  have hbuffers : Buffers (l.readAck p) p ↔ Buffers l p := by
    unfold Buffers
    rw [hpeer]
  by_cases hsize : p.size ≤ l.localLsp.maxLen.toNat
  · rw [readPacket_of_data hdata hsize] at hpacket
    split at hpacket
    · obtain rfl := Option.some.inj hpacket
      cases herror
    · by_cases hprocessed : processed l p = []
      · obtain ⟨pendingAck, hresult⟩ := readData_unprocessed (hsame.trans hprocessed)
        rw [hresult] at hpacket
        obtain rfl := Option.some.inj hpacket
        by_cases hbuffered : Buffers l p
        · refine h.buffer hbuffered (hpeer'.trans hpeer) ?_
          dsimp only
          rw [if_pos (hbuffers.mpr hbuffered), hbuffer]
        · have hlog : log.read l p = log := by
            unfold Log.read
            rw [if_neg hbuffered, hprocessed]
          rw [hlog]
          refine h.same (hpeer'.trans hpeer) ?_
          dsimp only
          rw [if_neg fun hbad => hbuffered (hbuffers.mp hbad), hbuffer]
      · rw [readData_processed (by rw [hsame]; exact hprocessed)] at hpacket
        obtain ⟨l₁, -, rfl⟩ := Option.map_eq_some_iff.mp hpacket
        rw [hsame, hbuffer, hpeer]
        exact h.process hprocessed rfl rfl
  · rw [readPacket_of_long hdata hsize] at hpacket
    obtain rfl := Option.some.inj hpacket
    cases herror

/-! ## Runs -/

/-- A link in the data phase stays in it, or fails. -/
theorem moves_data (h : Moves c call c' frames) (hphase : c.phase = .data) :
    c'.phase = .data ∨ c'.phase = .error := by
  have hkept : ∀ {c c' : Core}, Progresses c c' → c.phase = .data ∨ c.phase = .error →
      c'.phase = .data ∨ c'.phase = .error := by
    intro c c' hprogress hphase
    rcases hprogress.phase with hsame | herror | ⟨hearly, -⟩
    · rw [hsame]
      exact hphase
    · exact Or.inr herror
    · rcases hphase with hphase | hphase <;> rw [hphase] at hearly <;> simp at hearly
  cases h with
  | still => exact Or.inl hphase
  | reconcile _ _ _ _ hemits =>
    have hstart := Or.inl (b := c.phase = .error) hphase
    clear hphase
    induction hemits with
    | nil => exact hstart
    | cons hmove hrest ih => exact ih (hkept (transmits_progresses hmove) hstart)
  | read frame c' delivered hreads =>
    rcases reads_progresses hreads with hprogress | ⟨-, -, hdetecting, -⟩
    · exact hkept hprogress (Or.inl hphase)
    · rw [hphase] at hdetecting
      cases hdetecting
  | downgrade hearly =>
    rw [hphase] at hearly
    simp at hearly
  | close => exact Or.inr rfl

/-- Before the data phase nothing is buffered; in it the log is right. -/
structure Logged (x : Session × Log) : Prop where
  events : x.1.link.events = []
  data : x.1.link.status.isData = true → Reassembled x.1.link x.2
  before : x.1.link.status.isData = false → x.1.link.isError = false →
    ∀ k, x.1.link.outOfOrder k = none

/-- **One call** keeps the log right. -/
theorem Logged.step {x y : Session × Log} (h : Logged x)
    (hstep : withHistory Log.note Session.step x call = some y) : Logged y := by
  obtain ⟨s, log⟩ := x
  obtain ⟨t, ht, rfl⟩ := Option.map_eq_some_iff.mp hstep
  obtain ⟨hevents, events, -, -, hmoves⟩ := step_moves h.events ht
  rcases Bool.eq_false_or_eq_true s.link.status.isData with hdata | hdata
  · have hphase : (coreOf s.link).phase = .data := phaseOf_eq_data.mpr hdata
    refine ⟨hevents, fun hdata' => ?_, fun hnot herror => ?_⟩
    · have herror : t.link.isError = false := by
        rw [Bool.eq_false_iff]
        intro hbad
        have hbad' := isError_iff.mp hbad
        have hdata'' : (coreOf t.link).phase = .data := phaseOf_eq_data.mpr hdata'
        rw [hbad'] at hdata''
        cases hdata''
      dsimp only
      unfold Log.note
      rw [if_pos hdata]
      split
      · rename_i p
        rw [if_neg (by rw [herror]; simp)]
        obtain ⟨l', hread, rfl⟩ := Option.map_eq_some_iff.mp ht
        have hkept := (h.data hdata).readPacket hdata hread herror
        exact ⟨hkept.peerSeq, hkept.unknown, hkept.waits, hkept.taken⟩
      · rename_i hother
        obtain ⟨hpeer, hbuffer⟩ := moves_receiver hmoves fun p hp => hother p hp
        exact (h.data hdata).same hpeer hbuffer
    · rcases moves_data hmoves hphase with hbad | hbad
      · have hdata' := phaseOf_eq_data.mp hbad
        rw [hdata'] at hnot
        cases hnot
      · rw [isError_iff.mpr hbad] at herror
        cases herror
  · have hphase : (coreOf s.link).phase ≠ .data := by
      intro hbad
      rw [phaseOf_eq_data.mp hbad] at hdata
      cases hdata
    have hempty : t.link.isError = false → ∀ k, t.link.outOfOrder k = none := by
      intro herror k
      have hrunning : s.link.isError = false := by
        rw [Bool.eq_false_iff]
        intro hbad
        obtain ⟨hfailed, -⟩ := error_absorbs hmoves (isError_iff.mp hbad)
        rw [isError_iff.mpr hfailed] at herror
        cases herror
      have hbuffer : t.link.outOfOrder = s.link.outOfOrder := moves_buffer hmoves hphase
      rw [hbuffer]
      exact h.before hdata hrunning k
    refine ⟨hevents, fun hdata' => ?_, fun _ => hempty⟩
    have herror : t.link.isError = false := by
      cases hstatus : t.link.status <;> simp_all [LinkLayer.isError, LinkStatus.isData]
    have hlog : Log.note s call t log = Log.start t.link := by
      unfold Log.note
      rw [if_neg (by rw [hdata]; simp)]
    dsimp only
    rw [hlog]
    exact .start (hempty herror)

/-- In the data phase the log only grows. -/
theorem note_prefix {s : Session} (t : Session) (call : Session.Call) (log : Log)
    (hdata : s.link.status.isData = true) :
    (Log.note s call t log).base = log.base ∧ log.taken <+: (Log.note s call t log).taken := by
  unfold Log.note
  rw [if_pos hdata]
  split
  · split
    · exact ⟨rfl, List.prefix_refl _⟩
    · unfold Log.read
      split
      · exact ⟨rfl, List.prefix_refl _⟩
      · split
        · exact ⟨rfl, List.prefix_refl _⟩
        · exact ⟨rfl, List.prefix_append _ _⟩
  · exact ⟨rfl, List.prefix_refl _⟩

/-- Over a run that starts and ends in the data phase the log only grows. -/
theorem run_prefix {x y : Session × Log} {calls : List Session.Call} (h : Logged x)
    (hdata : x.1.link.status.isData = true) (hdata' : y.1.link.status.isData = true)
    (hrun : run (withHistory Log.note Session.step) x calls = some y) :
    x.2.base = y.2.base ∧ x.2.taken <+: y.2.taken := by
  induction calls generalizing x with
  | nil =>
    obtain rfl := Option.some.inj hrun
    exact ⟨rfl, List.prefix_refl _⟩
  | cons call calls ih =>
    obtain ⟨z, hz, hrest⟩ := run_cons_eq_some.mp hrun
    obtain ⟨t, ht, rfl⟩ := Option.map_eq_some_iff.mp hz
    obtain ⟨hbase, hprefix⟩ := note_prefix t call x.2 hdata
    obtain ⟨hevents, events, -, -, hmoves⟩ := step_moves h.events ht
    rcases moves_data hmoves (phaseOf_eq_data.mpr hdata) with hphase | hphase
    · obtain ⟨hbase', hprefix'⟩ := ih (h.step hz) (phaseOf_eq_data.mp hphase) hrest
      exact ⟨hbase.symm.trans hbase', hprefix.trans hprefix'⟩
    · -- an error is final, so the run could not end in the data phase
      have hrun' := run_project Prod.fst (fun a i b hab => by
        obtain ⟨c, hc, rfl⟩ := Option.map_eq_some_iff.mp hab
        exact hc) hrest
      obtain ⟨hfailed, -⟩ := error_absorbs_run hevents (isError_iff.mpr hphase) hrun'
      have hbad := isError_iff.mp hfailed
      have hgood : (coreOf y.1.link).phase = .data := phaseOf_eq_data.mpr hdata'
      rw [hbad] at hgood
      cases hgood

theorem Logged.fresh (server : Bool) (clock : Nat) (lspNegotiator : LSPNegotiator) :
    Logged (.fresh server clock lspNegotiator,
      Log.start (.withClockAndLspNegotiator server clock lspNegotiator)) :=
  ⟨rfl, fun h => (by cases h), fun _ _ _ => rfl⟩

/-- The reception side of a link in the data phase: every buffered number is ahead of the one
that is due, the packets were processed with consecutive numbers, each less than half a lap
after it was read, and the number of the peer is that of the last one. -/
structure InOrder (l : LinkLayer) (log : Log) : Prop where
  ahead : ∀ k q, l.outOfOrder k = some q →
    ∃ peerSeq, l.peerSeq = some peerSeq ∧ ModSeq8.gt k (peerSeq + 1) = true
  numbers : ∀ i q a, log.taken[i]? = some (q, a) →
    ∃ base, log.base = some base ∧ q.header.seq = seqAt base (i + 1)
  sameLap : ∀ i q a, log.taken[i]? = some (q, a) → a ≤ i ∧ i < a + 128
  peerSeq : l.peerSeq = log.base.map fun base => seqAt base log.taken.length

theorem Reassembled.inOrder (h : Reassembled l log) :
    InOrder l log := by
  have hbase : ∀ (i : Nat) (q : Packet) (a : Nat), log.taken[i]? = some (q, a) →
      ∃ base, log.base = some base := by
    intro i q a hi
    cases hbase : log.base with
    | none =>
      rw [(h.unknown hbase).1] at hi
      cases hi
    | some base => exact ⟨base, rfl⟩
  refine ⟨?_, ?_, ?_, h.peerSeq⟩
  · intro k q hq
    cases hbase : log.base with
    | none =>
      rw [(h.unknown hbase).2 k] at hq
      cases hq
    | some base =>
      have hpeer := h.peerSeq
      rw [hbase, Option.map_some] at hpeer
      obtain ⟨-, i, a, hlow, hhigh, hk, -⟩ := h.waits base hbase k q hq
      refine ⟨_, hpeer, ?_⟩
      rw [hk, ← seqAt_succ, gt_seqAt (by omega) (by omega)]
      simp
      omega
  · intro i q a hi
    obtain ⟨base, hbase⟩ := hbase i q a hi
    exact ⟨base, hbase, (h.taken base hbase i q a hi).1⟩
  · intro i q a hi
    obtain ⟨base, hbase⟩ := hbase i q a hi
    exact (h.taken base hbase i q a hi).2

/-- **Reassembly.** In every state of the data phase that any calls lead to, the reception side
is in order, and the packets processed up to an earlier state of the data phase are the first
of those processed up to now. -/
theorem reassembly_inOrder (server : Bool) (clock : Nat) (lspNegotiator : LSPNegotiator)
    (calls : List Session.Call) (s : Session) (log : Log)
    (hrun : run (withHistory Log.note Session.step) (.fresh server clock lspNegotiator,
      Log.start (.withClockAndLspNegotiator server clock lspNegotiator)) calls = some (s, log))
    (hdata : s.link.status.isData = true) :
    InOrder s.link log ∧
      ∀ front back s' log', calls = front ++ back →
        run (withHistory Log.note Session.step) (.fresh server clock lspNegotiator,
          Log.start (.withClockAndLspNegotiator server clock lspNegotiator)) front
            = some (s', log') →
        s'.link.status.isData = true → log'.base = log.base ∧ log'.taken <+: log.taken := by
  have hfresh := Logged.fresh server clock lspNegotiator
  have hlogged : ∀ {is : List Session.Call} {y : Session × Log},
      run (withHistory Log.note Session.step) (.fresh server clock lspNegotiator,
        Log.start (.withClockAndLspNegotiator server clock lspNegotiator)) is = some y →
          Logged y :=
    fun h => run_invariant Logged (fun _ _ _ hx hxy => hx.step hxy) hfresh h
  refine ⟨((hlogged hrun).data hdata).inOrder, ?_⟩
  rintro front back s' log' rfl hfront hdata'
  obtain ⟨y, hy, hback⟩ := run_append.mp hrun
  obtain rfl := Option.some.inj (hfront.symm.trans hy)
  exact run_prefix (hlogged hfront) hdata' hdata hback

/-- A host that reads the second packet before the first. -/
def swappedRun : List Session.Call :=
  [.read (.packet ⟨⟨11, .ACK, 0x20, 0x0F, 0⟩, some [0]⟩),
    .read (.packet ⟨⟨11, .ACK, 0x22, 0x0F, 1⟩, some [2]⟩),
    .read (.packet ⟨⟨11, .ACK, 0x21, 0x0F, 1⟩, some [1]⟩)]

theorem reassembly_inOrder_swapped :
    ∃ s log, run (withHistory Log.note Session.step)
        (.fresh true 0 (SimpleLSPNegotiator .bluetooth),
          Log.start (.withClockAndLspNegotiator true 0 (SimpleLSPNegotiator .bluetooth)))
        swappedRun = some (s, log) ∧
      log.taken.map (fun e => (e.1.payload, e.2)) = [(some [1], 0), (some [2], 0)] ∧
      InOrder s.link log := by
  refine ⟨_, _, rfl, rfl, ?_⟩
  exact (reassembly_inOrder true 0 (SimpleLSPNegotiator .bluetooth) swappedRun _ _ rfl rfl).1

end Catplay.Analysis.Link
