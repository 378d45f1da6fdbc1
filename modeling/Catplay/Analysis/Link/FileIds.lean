import Catplay.Analysis.Link.Transfer

/-!
# The ids of outgoing file transfers

An id is alive twice over: as a flag in the pool of the transmitter, and as a reservation that the
user holds or a transfer in its slot. `Holder` keeps the reservations beside the session, and what
has ended and what went back to the pool. The two agree until the peer sends a Setup that names a
reserved id without a transfer: the transmitter answers it with a Cancel and gives the id back,
though the user still holds it (`ids_sound`).
-/

set_option autoImplicit false

namespace Catplay.Analysis.Link

open Catplay.Library.Run Catplay.Model.Link

/-- A file session beside the reservations that its user holds. `ended` lists the ids whose
reservation was cancelled or whose transfer came to its end, and `returned` the ids whose flag was
cleared, oldest first. -/
structure Holder where
  files : FileSession
  held : List UInt8
  ended : List UInt8
  returned : List UInt8

/-- The user reserves an id, gives it up or sends a file with it, a payload of the peer comes in,
a transfer is cancelled by its handle, and the link takes a payload to send. -/
inductive FileCall
  | reserve
  | cancelReserved (id : UInt8)
  | sendFile (id : UInt8) (fileType : UInt16) (setupData source : Bytes)
  | receive (payload : Option Bytes)
  | cancelTransfer (id : UInt8)
  | dequeue (maxPayloadLen : Nat)

namespace Holder

def fresh (server : Bool) : Holder := ⟨.new server, [], [], []⟩

/-- The id is reserved, or a transfer has it. -/
def liveIn (tx : FileTransferTransmitter) (held : List UInt8) (id : UInt8) : Bool :=
  held.contains id || (tx.outgoing id).isSome

def live (self : Holder) : UInt8 → Bool := liveIn self.files.tx self.held

/-- The session and the reservations after a call. A reservation is used up by the call it is
given to; `none` also is a panic of the session. -/
def call (self : Holder) : FileCall → Option (FileSession × List UInt8)
  | .reserve =>
    match self.files.reserveFileTx with
    | (files, some id) => some (files, id :: self.held)
    | (files, none) => some (files, self.held)
  | .cancelReserved id =>
    if id ∈ self.held then some (self.files.cancelFileTx id, self.held.erase id) else none
  | .sendFile id fileType setupData source =>
    if id ∈ self.held then
      (self.files.sendFile id fileType setupData source).map fun files =>
        (files, self.held.erase id)
    else none
  | .receive payload => (self.files.enqueueRx payload).map fun files => (files, self.held)
  | .cancelTransfer id =>
    (self.files.tx.cancel id).map fun (tx, _) => ({ self.files with tx }, self.held)
  | .dequeue maxPayloadLen => some ((self.files.dequeueTx maxPayloadLen).1, self.held)

/-- The ids of which something was true that no longer is. -/
def lost (before after : UInt8 → Bool) : List UInt8 :=
  FileTransferTransmitter.allIds.filter fun id => before id && !after id

def step (self : Holder) (c : FileCall) : Option Holder :=
  (self.call c).map fun (files, held) =>
    let next : Holder := { self with files, held }
    { next with
      ended := self.ended ++ lost self.live next.live
      returned := self.returned ++ lost self.files.tx.takenIds files.tx.takenIds }

end Holder

/-- **What the pool is for**: an id that is handed out is not alive, a reserved id can be used,
and the ids that went back to the pool are those that came to their end, one for one. -/
structure IdsSound (h : Holder) : Prop where
  unique : ∀ files id, h.files.reserveFileTx = (files, some id) → h.live id = false
  usable : ∀ id ∈ h.held, ∀ fileType setupData source,
    (h.files.sendFile id fileType setupData source).isSome = true
  once : h.returned = h.ended

/-- No Setup of the peer names an id that is reserved and has no transfer. -/
def NamesNoReserved (h : Holder) (c : FileCall) : Prop :=
  ∀ payload f, c = .receive payload → FileTransferPayload.fromPayload payload = some f →
    f.op = .setup → f.fileId ∉ h.held

/-! ## The flags and the slots agree -/

/-- The flags of the pool beside the reservations and the slots. -/
structure Agrees (tx : FileTransferTransmitter) (held : List UInt8) : Prop where
  indexed : Indexed tx
  taken : ∀ id, tx.takenIds id = Holder.liveIn tx held id
  apart : ∀ id ∈ held, tx.outgoing id = none
  valid : ∀ id ∈ held, tx.validRange id = true
  nodup : held.Nodup

variable {tx : FileTransferTransmitter} {held : List UInt8}

theorem agrees_new (server : Bool) : Agrees (.new server) [] :=
  ⟨indexed_new server, fun _ => rfl, fun _ hmem => (by cases hmem), fun _ hmem => (by cases hmem),
    List.nodup_nil⟩

theorem liveIn_iff (id : UInt8) :
    Holder.liveIn tx held id = true ↔ id ∈ held ∨ (tx.outgoing id).isSome = true := by
  unfold Holder.liveIn
  rw [Bool.or_eq_true, List.contains_iff_mem]

theorem ne_255_of_valid {id : UInt8} (h : tx.validRange id = true) : id ≠ 255 := by
  rintro rfl
  unfold FileTransferTransmitter.validRange at h
  split at h <;> revert h <;> decide

/-- The flags follow the reservations and the slots where these change for one id only. -/
theorem taken_of_update {tx' : FileTransferTransmitter} {held' : List UInt8}
    (h : Agrees tx held) (id : UInt8) (taken : Bool)
    (htaken : ∀ q, tx'.takenIds q = if q = id then taken else tx.takenIds q)
    (hlive : Holder.liveIn tx' held' id = taken)
    (hheld : ∀ q, q ≠ id → (q ∈ held' ↔ q ∈ held))
    (hslot : ∀ q, q ≠ id → tx'.outgoing q = tx.outgoing q) (q : UInt8) :
    tx'.takenIds q = Holder.liveIn tx' held' q := by
  rw [htaken]
  split
  · rename_i hq
    rw [hq, hlive]
  · rename_i hq
    rw [h.taken, Bool.eq_iff_iff, liveIn_iff, liveIn_iff, hheld q hq, hslot q hq]

/-- An id is reserved. -/
theorem Agrees.reserve (h : Agrees tx held) {id : UInt8} (hvalid : tx.validRange id = true)
    (hfree : tx.takenIds id = false) : Agrees (tx.setTaken id true) (id :: held) := by
  have hdead : ¬ (id ∈ held ∨ (tx.outgoing id).isSome = true) := by
    rw [← liveIn_iff, ← h.taken, hfree]
    decide
  have hnone : tx.outgoing id = none := by
    rw [← Option.not_isSome_iff_eq_none]
    exact fun hsome => hdead (Or.inr hsome)
  refine ⟨h.indexed, taken_of_update h id true (fun _ => rfl) ?_ (fun q hq => ?_) fun _ _ => rfl,
    fun q hq => ?_, fun q hq => ?_, List.nodup_cons.mpr ⟨fun hmem => hdead (Or.inl hmem), h.nodup⟩⟩
  · exact (liveIn_iff id).mpr (Or.inl List.mem_cons_self)
  · rw [List.mem_cons, or_iff_right hq]
  · rcases List.mem_cons.mp hq with rfl | hmem
    · exact hnone
    · exact h.apart q hmem
  · rcases List.mem_cons.mp hq with rfl | hmem
    · exact hvalid
    · exact h.valid q hmem

theorem Agrees.not_mem_erase (h : Agrees tx held) (id : UInt8) : id ∉ held.erase id :=
  fun hmem => h.nodup.not_mem_erase hmem

theorem mem_erase_of_ne {id q : UInt8} (hq : q ≠ id) : q ∈ held.erase id ↔ q ∈ held :=
  List.mem_erase_of_ne hq

/-- A reservation is given up. -/
theorem Agrees.cancelReserved (h : Agrees tx held) {id : UInt8} (hid : id ∈ held) :
    Agrees (tx.cancelReserved id) (held.erase id) := by
  refine ⟨h.indexed, taken_of_update h id false (fun _ => rfl) ?_
    (fun q hq => mem_erase_of_ne hq) fun _ _ => rfl,
    fun q hq => h.apart q (List.mem_of_mem_erase hq), fun q hq => h.valid q (List.mem_of_mem_erase hq),
    h.nodup.erase id⟩
  rw [← Bool.not_eq_true, liveIn_iff]
  rintro (hmem | hsome)
  · exact h.not_mem_erase id hmem
  · have hslot : (tx.cancelReserved id).outgoing id = none := h.apart id hid
    rw [hslot] at hsome
    cases hsome

/-- A transfer goes on with a new session, or comes to its end and gives its id back. -/
theorem Agrees.settle (h : Agrees tx held) {id : UInt8} {old session : FileTransferOutgoing}
    (hget : tx.outgoing id = some old) (hid : session.fileId = id) :
    Agrees ((tx.setSlot id (some session)).reconcile id) held := by
  have hindexed : Indexed ((tx.setSlot id (some session)).reconcile id) := by
    apply Indexed.reconcile
    apply h.indexed.setSlot
    intro other hother
    rw [← Option.some.inj hother]
    exact hid
  have hlive : tx.takenIds id = true := by
    rw [h.taken, liveIn_iff, hget]
    exact Or.inr rfl
  have hnot : id ∉ held := by
    intro hmem
    rw [h.apart id hmem] at hget
    cases hget
  have hslot : (tx.setSlot id (some session)).outgoing id = some session := by
    rw [setSlot_outgoing, if_pos rfl]
  by_cases hreclaim : session.shouldReclaimId = true
  · have hended : (tx.setSlot id (some session)).reconcile id =
        ((tx.setSlot id (some session)).setTaken id false).setSlot id none := by
      unfold FileTransferTransmitter.reconcile
      rw [hslot]
      dsimp only
      rw [if_pos hreclaim, hid]
    rw [hended] at hindexed ⊢
    have hother : ∀ q, q ≠ id →
        (((tx.setSlot id (some session)).setTaken id false).setSlot id none).outgoing q =
          tx.outgoing q := by
      intro q hq
      rw [setSlot_outgoing, if_neg hq]
      exact (setSlot_outgoing tx id q (some session)).trans (if_neg hq)
    refine ⟨hindexed, taken_of_update h id false (fun _ => rfl) ?_ (fun _ _ => Iff.rfl) hother,
      fun q hq => ?_, h.valid, h.nodup⟩
    · rw [← Bool.not_eq_true, liveIn_iff]
      rintro (hmem | hsome)
      · exact hnot hmem
      · rw [setSlot_outgoing, if_pos rfl] at hsome
        cases hsome
    · rw [hother q (ne_of_mem_of_not_mem hq hnot)]
      exact h.apart q hq
  · rw [reconcile_of_not hslot (Bool.eq_false_iff.mpr hreclaim)] at hindexed ⊢
    refine ⟨hindexed, taken_of_update h id true (fun q => ?_) ?_ (fun _ _ => Iff.rfl)
      (fun q hq => (setSlot_outgoing tx id q (some session)).trans (if_neg hq)), fun q hq => ?_,
      h.valid, h.nodup⟩
    · show tx.takenIds q = _
      split
      · rename_i hq
        rw [hq, hlive]
      · rfl
    · rw [liveIn_iff, hslot]
      exact Or.inr rfl
    · rw [setSlot_outgoing, if_neg (ne_of_mem_of_not_mem hq hnot)]
      exact h.apart q hq

/-- A transfer is set up with a reserved id. -/
theorem Agrees.setup (h : Agrees tx held) {id : UInt8} (hid : id ∈ held) (fileType : UInt16)
    (setupData source : Bytes) :
    ∃ tx' payload, tx.setup id fileType setupData source = some (tx', payload) ∧
      Agrees tx' (held.erase id) := by
  have hnone := h.apart id hid
  unfold FileTransferTransmitter.setup
  rw [if_neg (ne_255_of_valid (h.valid id hid)), hnone]
  refine ⟨_, _, rfl, ?_⟩
  rw [reconcile_of_not (by rw [setSlot_outgoing, if_pos rfl]) rfl]
  refine ⟨?_, taken_of_update h id true (fun q => ?_) ?_
    (fun q hq => mem_erase_of_ne hq) (fun q hq => (setSlot_outgoing tx id q _).trans (if_neg hq)),
    fun q hq => ?_, fun q hq => h.valid q (List.mem_of_mem_erase hq), h.nodup.erase id⟩
  · apply h.indexed.setSlot
    intro other hother
    rw [← Option.some.inj hother]
  · show tx.takenIds q = _
    split
    · rename_i hq
      rw [hq, h.taken, liveIn_iff]
      exact Or.inl hid
    · rfl
  · rw [liveIn_iff, setSlot_outgoing, if_pos rfl]
    exact Or.inr rfl
  · rw [setSlot_outgoing, if_neg (ne_of_mem_of_not_mem hq (h.not_mem_erase id))]
    exact h.apart q (List.mem_of_mem_erase hq)

/-- A payload of the peer that is no Setup of a reserved id. -/
theorem Agrees.feed (h : Agrees tx held) {f : FileTransferPayload}
    (hsafe : f.op = .setup → f.fileId ∉ held) {tx' : FileTransferTransmitter}
    {resp : Option FileTransferPayload} {event : Option FileTransferEvent}
    (hfeed : tx.feed f = some (tx', resp, event)) : Agrees tx' held := by
  unfold FileTransferTransmitter.feed at hfeed
  split at hfeed
  · cases hfeed
  · split at hfeed
    · obtain ⟨rfl, -⟩ := Prod.mk.inj (Option.some.inj hfeed)
      exact h
    · split at hfeed
      · rename_i session hget
        split at hfeed
        · obtain ⟨rfl, -⟩ := Prod.mk.inj (Option.some.inj hfeed)
          exact h
        · obtain ⟨rfl, -⟩ := Prod.mk.inj (Option.some.inj hfeed)
          exact h.settle hget (h.indexed f.fileId session hget)
      · rename_i hnone
        split at hfeed
        · rename_i hop
          obtain ⟨rfl, -⟩ := Prod.mk.inj (Option.some.inj hfeed)
          refine ⟨h.indexed, taken_of_update h f.fileId false (fun _ => rfl) ?_
            (fun _ _ => Iff.rfl) fun _ _ => rfl, h.apart, h.valid, h.nodup⟩
          rw [← Bool.not_eq_true, liveIn_iff]
          rintro (hmem | hsome)
          · exact hsafe hop hmem
          · have hslot : (tx.setTaken f.fileId false).outgoing f.fileId = none := hnone
            rw [hslot] at hsome
            cases hsome
        · obtain ⟨rfl, -⟩ := Prod.mk.inj (Option.some.inj hfeed)
          exact h

theorem Agrees.cancel (h : Agrees tx held) {id : UInt8} {tx' : FileTransferTransmitter}
    {payload : Option FileTransferPayload} (hcancel : tx.cancel id = some (tx', payload)) :
    Agrees tx' held := by
  unfold FileTransferTransmitter.cancel at hcancel
  split at hcancel
  · cases hcancel
  · split at hcancel
    · rename_i session hget
      obtain ⟨rfl, -⟩ := Prod.mk.inj (Option.some.inj hcancel)
      refine h.settle hget ?_
      have hid := h.indexed id session hget
      split <;> exact hid
    · obtain ⟨rfl, -⟩ := Prod.mk.inj (Option.some.inj hcancel)
      exact h

theorem Agrees.poll (h : Agrees tx held) (chunkSize : Nat) : Agrees (tx.poll chunkSize).1 held := by
  rcases poll_cases tx chunkSize with ⟨hpoll, -⟩ | ⟨id, session, hget, hsending, hpoll⟩
  · rw [hpoll]
    exact h
  · rw [hpoll]
    have hid : (session.pollSend chunkSize).1.fileId = id := by
      rw [pollSend_fileId]
      exact h.indexed id session hget
    have hstate : (session.pollSend chunkSize).1.state = .waitingForSuccess ∨
        (session.pollSend chunkSize).1.state = .sending := by
      unfold FileTransferOutgoing.pollSend
      rw [if_neg (not_not.mpr hsending)]
      dsimp only
      split
      · exact Or.inl rfl
      · exact Or.inr hsending
    have hlive : (session.pollSend chunkSize).1.shouldReclaimId = false := by
      unfold FileTransferOutgoing.shouldReclaimId
      rcases hstate with hwaiting | hsending
      · rw [hwaiting]
      · rw [hsending]
    have hslot : (tx.setSlot id (some (session.pollSend chunkSize).1)).outgoing id =
        some (session.pollSend chunkSize).1 := by
      rw [setSlot_outgoing, if_pos rfl]
    have hsettled := h.settle hget hid
    rwa [reconcile_of_not hslot hlive] at hsettled

/-! ## Calls -/

theorem reserve_cases (tx : FileTransferTransmitter) :
    (tx.reserve = (tx, none)) ∨
      ∃ id, tx.validRange id = true ∧ tx.takenIds id = false ∧
        tx.reserve = (tx.setTaken id true, some id) := by
  unfold FileTransferTransmitter.reserve
  split
  · rename_i id hfind
    have hfree := List.find?_some hfind
    rw [Bool.and_eq_true, Bool.not_eq_true'] at hfree
    exact Or.inr ⟨id, hfree.1, hfree.2, rfl⟩
  · exact Or.inl rfl

/-- **A call keeps the flags in step**, unless the peer names a reserved id. -/
theorem Agrees.call {h : Holder} (hagrees : Agrees h.files.tx h.held) {c : FileCall}
    (hsafe : NamesNoReserved h c) {files : FileSession} {held : List UInt8}
    (hcall : h.call c = some (files, held)) : Agrees files.tx held := by
  cases c with
  | reserve =>
    unfold Holder.call FileSession.reserveFileTx at hcall
    rcases reserve_cases h.files.tx with hnone | ⟨id, hvalid, hfree, hsome⟩
    · rw [hnone] at hcall
      obtain ⟨rfl, rfl⟩ := Prod.mk.inj (Option.some.inj hcall)
      exact hagrees
    · rw [hsome] at hcall
      obtain ⟨rfl, rfl⟩ := Prod.mk.inj (Option.some.inj hcall)
      exact hagrees.reserve hvalid hfree
  | cancelReserved id =>
    unfold Holder.call at hcall
    dsimp only at hcall
    split at hcall
    · rename_i hid
      obtain ⟨rfl, rfl⟩ := Prod.mk.inj (Option.some.inj hcall)
      exact hagrees.cancelReserved hid
    · cases hcall
  | sendFile id fileType setupData source =>
    unfold Holder.call at hcall
    dsimp only at hcall
    split at hcall
    · rename_i hid
      obtain ⟨tx', payload, hsetup, hnext⟩ := hagrees.setup hid fileType setupData source
      unfold FileSession.sendFile at hcall
      rw [hsetup] at hcall
      obtain ⟨rfl, rfl⟩ := Prod.mk.inj (Option.some.inj hcall)
      exact hnext
    · cases hcall
  | receive payload =>
    obtain ⟨files', hreceive, hpair⟩ := Option.map_eq_some_iff.mp hcall
    obtain ⟨rfl, rfl⟩ := Prod.mk.inj hpair
    unfold FileSession.enqueueRx at hreceive
    split at hreceive
    · obtain rfl := Option.some.inj hreceive
      exact hagrees
    · rename_i f hf
      obtain ⟨⟨tx', resp, event⟩, hfeed, hrest⟩ := Option.bind_eq_some_iff.mp hreceive
      obtain rfl := Option.some.inj hrest
      exact hagrees.feed (fun hop => hsafe payload f rfl hf hop) hfeed
  | cancelTransfer id =>
    obtain ⟨⟨tx', payload⟩, hcancel, hpair⟩ := Option.map_eq_some_iff.mp hcall
    obtain ⟨rfl, rfl⟩ := Prod.mk.inj hpair
    exact hagrees.cancel hcancel
  | dequeue maxPayloadLen =>
    obtain ⟨rfl, rfl⟩ := Prod.mk.inj (Option.some.inj hcall)
    unfold FileSession.dequeueTx
    split
    · exact hagrees
    · dsimp only
      split
      · exact hagrees
      · exact hagrees.poll _

/-- What agrees is sound. -/
theorem Agrees.sound {h : Holder} (hagrees : Agrees h.files.tx h.held)
    (honce : h.returned = h.ended) : IdsSound h := by
  refine ⟨fun files id hreserve => ?_, fun id hid fileType setupData source => ?_, honce⟩
  · unfold FileSession.reserveFileTx at hreserve
    rcases reserve_cases h.files.tx with hnone | ⟨found, -, hfree, hsome⟩
    · rw [hnone] at hreserve
      cases (Prod.mk.inj hreserve).2
    · rw [hsome] at hreserve
      obtain rfl := Option.some.inj (Prod.mk.inj hreserve).2
      exact (hagrees.taken found).symm.trans hfree
  · obtain ⟨tx', payload, hsetup, -⟩ := hagrees.setup hid fileType setupData source
    unfold FileSession.sendFile
    rw [hsetup]
    rfl

/-- **A Setup that names a reserved id** gives the id back while it is in use. -/
theorem Agrees.leak {h : Holder} (hagrees : Agrees h.files.tx h.held) {payload : Option Bytes}
    {f : FileTransferPayload} (hf : FileTransferPayload.fromPayload payload = some f)
    (hop : f.op = .setup) (hid : f.fileId ∈ h.held) {files : FileSession} {held : List UInt8}
    (hcall : h.call (.receive payload) = some (files, held)) :
    Holder.lost h.live (Holder.liveIn files.tx held) = [] ∧
      f.fileId ∈ Holder.lost h.files.tx.takenIds files.tx.takenIds := by
  have hvalid := hagrees.valid f.fileId hid
  obtain ⟨files', hreceive, hpair⟩ := Option.map_eq_some_iff.mp hcall
  obtain ⟨rfl, rfl⟩ := Prod.mk.inj hpair
  unfold FileSession.enqueueRx at hreceive
  rw [hf] at hreceive
  obtain ⟨⟨tx', resp, event⟩, hfeed, hrest⟩ := Option.bind_eq_some_iff.mp hreceive
  obtain rfl := Option.some.inj hrest
  have hfreed : tx' = h.files.tx.setTaken f.fileId false := by
    have hfeed' : h.files.tx.feed f = some (tx', resp, event) := hfeed
    unfold FileTransferTransmitter.feed at hfeed'
    rw [if_neg (ne_255_of_valid hvalid), if_neg (not_not.mpr hvalid), hagrees.apart f.fileId hid]
      at hfeed'
    dsimp only at hfeed'
    rw [if_pos hop] at hfeed'
    exact (Prod.mk.inj (Option.some.inj hfeed')).1.symm
  have htx : ({ h.files with rx := (h.files.rx.feed f).1 }.queueResults f.fileId
      (h.files.rx.feed f).2.1 (h.files.rx.feed f).2.2).tx = h.files.tx := rfl
  constructor
  · unfold Holder.lost
    rw [List.filter_eq_nil_iff]
    intro id _ hlost
    rw [Bool.and_eq_true, Bool.not_eq_true'] at hlost
    have hsame : Holder.liveIn tx' h.held id = h.live id := by
      rw [hfreed]
      rfl
    have hgone : Holder.liveIn tx' h.held id = false := hlost.2
    rw [hsame, hlost.1] at hgone
    cases hgone
  · unfold Holder.lost
    rw [List.mem_filter, Bool.and_eq_true, Bool.not_eq_true']
    refine ⟨mem_allIds hvalid, ?_, ?_⟩
    · rw [hagrees.taken, liveIn_iff]
      exact Or.inl hid
    · show tx'.takenIds f.fileId = false
      rw [hfreed]
      exact if_pos rfl

/-! ## Runs -/

/-- **Ids of transfers.** Along every run the pool does what it is for exactly when no Setup of the
peer names an id that is reserved and has no transfer. -/
theorem ids_sound {server : Bool} {calls : List FileCall} {last : Holder}
    (hrun : run Holder.step (.fresh server) calls = some last) :
    (∀ front h, front <+: calls → run Holder.step (.fresh server) front = some h → IdsSound h) ↔
      AllSteps Holder.step NamesNoReserved (.fresh server) calls := by
  refine run_iff_allSteps (fun h => h.returned = h.ended → Agrees h.files.tx h.held) IdsSound
    NamesNoReserved ?_ (fun _ => agrees_new server) ((agrees_new server).sound rfl) hrun
  intro h c h' hinv hsound hstep
  have hagrees := hinv hsound.once
  obtain ⟨⟨files, held⟩, hcall, rfl⟩ := Option.map_eq_some_iff.mp hstep
  by_cases hsafe : NamesNoReserved h c
  · have hnext := hagrees.call hsafe hcall
    have honce : h.returned ++ Holder.lost h.files.tx.takenIds files.tx.takenIds =
        h.ended ++ Holder.lost h.live (Holder.liveIn files.tx held) := by
      have hbefore : h.files.tx.takenIds = h.live := funext hagrees.taken
      have hafter : files.tx.takenIds = Holder.liveIn files.tx held := funext hnext.taken
      rw [hsound.once, hbefore, hafter]
    exact ⟨fun _ => hnext, iff_of_true (Agrees.sound hnext honce) hsafe⟩
  · have hbad : h.returned ++ Holder.lost h.files.tx.takenIds files.tx.takenIds ≠
        h.ended ++ Holder.lost h.live (Holder.liveIn files.tx held) := by
      unfold NamesNoReserved at hsafe
      push Not at hsafe
      obtain ⟨payload, f, rfl, hf, hop, hid⟩ := hsafe
      obtain ⟨hnone, hmem⟩ := hagrees.leak hf hop hid hcall
      rw [hnone, hsound.once, List.append_nil]
      intro heq
      have hnil := List.append_right_eq_self.mp heq
      rw [hnil] at hmem
      cases hmem
    exact ⟨fun honce => absurd honce hbad, iff_of_false (fun hbadSound => hbad hbadSound.once) hsafe⟩

/-- A host that reserves an id and sends a file with it. -/
theorem ids_sound_sent :
    ∃ last, run Holder.step (.fresh true) [.reserve, .sendFile 128 0 [] [1]] = some last ∧
      ∀ front h, front <+: [.reserve, .sendFile 128 0 [] [1]] →
        run Holder.step (.fresh true) front = some h → IdsSound h := by
  have hsome : (run Holder.step (.fresh true) [.reserve, .sendFile 128 0 [] [1]]).isSome = true := by
    decide
  obtain ⟨last, hrun⟩ := Option.isSome_iff_exists.mp hsome
  refine ⟨last, hrun, (ids_sound hrun).mpr ⟨?_, fun h _ => ⟨?_, fun h' _ => trivial⟩⟩⟩
  · intro payload f hcall
    cases hcall
  · intro payload f hcall
    cases hcall

/-- **Given away.** The peer names the id that the host has reserved, and the host gets it again. -/
theorem reserved_twice :
    ¬ ∀ (server : Bool) (calls : List FileCall) (h : Holder),
      run Holder.step (.fresh server) calls = some h → IdsSound h := by
  intro hall
  have hfacts : (run Holder.step (.fresh true) [.reserve, .receive (some [128, 4])]).map
      (fun h => (h.live 128, h.files.reserveFileTx.2)) = some (true, some 128) := by
    decide
  obtain ⟨h, hrun, hpair⟩ := Option.map_eq_some_iff.mp hfacts
  obtain ⟨hlive, hreserve⟩ := Prod.mk.inj hpair
  have hdead := (hall true _ h hrun).unique h.files.reserveFileTx.1 128
    (by rw [← hreserve])
  rw [hlive] at hdead
  cases hdead

end Catplay.Analysis.Link
