import Catplay.Analysis.Link.Refinement

/-!
# What runs do to cores

The calls on one link and the actions on two, as moves of the cores.
-/

set_option autoImplicit false

/-!
## What a call does to the core of a link

Of the calls on a single link only four move its core: `reconcile` and `read`, by the
relations `Emits` and `Reads`, and `downgrade` and `close`, which set the phase. The
others touch queues and the clock. `Moves` lists the cases, and `step_moves` says that
every call is one of them and what it adds to the trace.
-/

namespace Catplay.Analysis.Link

open Catplay.Model.Link

/-- The move of a core under a call, with the frames written. -/
inductive Moves (c : Core) : Session.Call → Core → List PacketOrDetect → Prop
  | still (call : Session.Call) (hread : ∀ frame, call ≠ .read frame) : Moves c call c []
  | reconcile (txBudget : Nat) (c' : Core) (takens : List Bytes) (frames : List PacketOrDetect)
      (hemits : Core.Emits c takens c' frames) : Moves c (.reconcile txBudget) c' frames
  | read (frame : PacketOrDetect) (c' : Core) (delivered : List Bytes)
      (hreads : Core.Reads c frame c' delivered) : Moves c (.read frame) c' []
  | downgrade (hphase : c.phase = .downgrade ∨ c.phase = .detecting)
      (hdetect : c.detectSent = false) : Moves c .downgrade { c with phase := .downgrade } []
  | close : Moves c .close { c with phase := .error } []

/-- A call on the link. -/
theorem callLink_moves {l l' : LinkLayer} {call : Session.Call} (hevents : l.events = [])
    (h : Session.callLink l call = some l') :
    Moves (coreOf l) call (coreOf l') (writes l'.events) := by
  have hquiet : writes l.events = [] := by
    rw [hevents]
    rfl
  cases call with
  | read frame =>
    obtain ⟨delivered, hreads, -, hwrites, -⟩ := read_spec h
    rw [hwrites, hquiet]
    exact .read frame _ delivered hreads
  | reconcile txBudget =>
    obtain ⟨⟨l₁, more⟩, hreconcile, rfl⟩ := Option.map_eq_some_iff.mp h
    obtain ⟨takens, hemits, -, -⟩ := reconcile_spec hevents hreconcile
    exact .reconcile txBudget _ takens _ hemits
  | advance _ | enqueueCsm _ | enqueueEa _ | enqueueLingo _ | reserveFileTx | cancelFileTx _ =>
    obtain rfl := Option.some.inj h
    have hstill : writes l.events = [] := hquiet
    simp only [hstill]
    exact .still _ (by simp)
  | sendFile id fileType setupData source =>
    obtain ⟨files, -, rfl⟩ := Option.map_eq_some_iff.mp h
    simp only [hquiet]
    exact .still _ (by simp)
  | downgrade =>
    unfold Session.callLink at h
    dsimp only at h
    split at h
    · rename_i l₁ hok
      obtain rfl := Option.some.inj h
      obtain ⟨hphase, hdetect, rfl⟩ := downgrade_ok hok
      rw [(changeState_quiet l .downgrade).1, hquiet]
      exact .downgrade hphase hdetect
    · obtain rfl := Option.some.inj h
      rw [hquiet]
      exact .still _ (by simp)
  | close =>
    obtain rfl := Option.some.inj h
    unfold LinkLayer.close
    split
    · rw [LinkLayer.enterErrorState, (changeState_quiet l _).1, hquiet]
      exact .close
    · rename_i hclosed
      rw [not_not] at hclosed
      have hcore : coreOf l = { coreOf l with phase := .error } := by
        simp [coreOf, hclosed, phaseOf]
      rw [hquiet]
      have hclose := Moves.close (c := coreOf l)
      rwa [← hcore] at hclose

/-- The frames among a list of observations that were written. -/
def writtenIn (trace : List Observation) : List PacketOrDetect :=
  trace.filterMap fun
    | .emitted (.write next) => some next
    | _ => none

theorem writtenIn_emitted (events : List LinkEvent) :
    writtenIn (events.map .emitted) = writes events := by
  unfold writtenIn writes
  rw [List.filterMap_map]
  refine List.filterMap_congr fun event _ => ?_
  cases event <;> rfl

theorem writtenIn_received (call : Session.Call) : writtenIn (Session.received call) = [] := by
  cases call <;> rfl

/-- **One call.** The core moves, the trace grows by the frame received and the events
emitted, and the frames written are those of the move. -/
theorem step_moves {s s' : Session} {call : Session.Call} (hevents : s.link.events = [])
    (h : s.step call = some s') :
    s'.link.events = [] ∧
      ∃ events, s'.trace = s.trace ++ Session.received call ++ events.map .emitted ∧
        s'.written = s.written ++ writes events ∧
        Moves (coreOf s.link) call (coreOf s'.link) (writes events) := by
  obtain ⟨l', hcall, rfl⟩ := Option.map_eq_some_iff.mp h
  refine ⟨rfl, l'.events, rfl, ?_, callLink_moves hevents hcall⟩
  have hwritten : ∀ t : Session, t.written = writtenIn t.trace := fun _ => rfl
  rw [hwritten, hwritten]
  unfold writtenIn
  rw [List.filterMap_append, List.filterMap_append]
  have hreceived := writtenIn_received call
  have hemitted := writtenIn_emitted l'.events
  unfold writtenIn at hreceived hemitted
  rw [hreceived, hemitted, List.append_nil]

end Catplay.Analysis.Link

/-!
## What an action does to two linked cores

The ends of a `Duplex` seen through their cores. `EndMoves` lists what an action at one
end does to this end and to its peer, and `step_endMoves` says that a step of a `Duplex`
is one of them.
-/

namespace Catplay.Analysis.Link

open Catplay.Model.Link

/-- An end with the core of its link. -/
structure End where
  core : Core
  inbox : List PacketOrDetect
  sent : List Bytes
  received : List Bytes

/-- The end behind an endpoint. -/
def endOf (e : Endpoint) : End where
  core := coreOf e.link
  inbox := e.inbox
  sent := e.sent
  received := e.received

/-- `EndMoves mine peer action mine' peer'`: an action at `mine` can turn the two ends into
`mine'` and `peer'`. -/
inductive EndMoves (mine peer : End) : Duplex.Action → End → End → Prop
  | enqueueCsm (payload : Bytes) : EndMoves mine peer (.enqueueCsm payload) mine peer
  | advance (nanos : Nat) : EndMoves mine peer (.advance nanos) mine peer
  | reconcile (txBudget : Nat) (c' : Core) (takens : List Bytes) (frames : List PacketOrDetect)
      (hemits : Core.Emits mine.core takens c' frames) :
      EndMoves mine peer (.reconcile txBudget)
        { mine with core := c', sent := mine.sent ++ Duplex.carried c'.peerLsp takens }
        { peer with inbox := peer.inbox ++ frames }
  | read (frame : PacketOrDetect) (rest : List PacketOrDetect) (c' : Core) (delivered : List Bytes)
      (hinbox : mine.inbox = frame :: rest) (hreads : Core.Reads mine.core frame c' delivered) :
      EndMoves mine peer .read
        { mine with core := c', inbox := rest, received := mine.received ++ delivered } peer
  | drop (index : Nat) :
      EndMoves mine peer (.drop index) { mine with inbox := mine.inbox.eraseIdx index } peer
  | duplicate (index : Nat) :
      EndMoves mine peer (.duplicate index)
        { mine with inbox := Duplex.repeatAt mine.inbox index } peer

/-- Between two steps no link holds events back. -/
def Tidy (d : Duplex) : Prop := ∀ s, (d s).link.events = []

theorem Side.other_ne (s : Side) : s.other ≠ s := by
  cases s <;> decide

@[simp] theorem Side.other_other (s : Side) : s.other.other = s := by
  cases s <;> rfl

@[simp] theorem settle_self (d : Duplex) (s : Side) (e : Endpoint) (l : LinkLayer) :
    d.settle s e l s =
      { e with link := { l with events := [] }, received := e.received ++ csmReads l.events } :=
  if_pos rfl

@[simp] theorem settle_other (d : Duplex) (s : Side) (e : Endpoint) (l : LinkLayer) :
    d.settle s e l s.other =
      { d s.other with inbox := (d s.other).inbox ++ writes l.events } :=
  if_neg (Side.other_ne s)

@[simp] theorem update_self (d : Duplex) (s : Side) (e : Endpoint) : d.update s e s = e :=
  if_pos rfl

@[simp] theorem update_other (d : Duplex) (s : Side) (e : Endpoint) :
    d.update s e s.other = d s.other :=
  if_neg (Side.other_ne s)

/-- What left a queue at its front. -/
theorem dequeued_append (takens rest : List Bytes) :
    Duplex.dequeued (takens ++ rest) rest = takens := by
  unfold Duplex.dequeued
  rw [List.length_append, Nat.add_sub_cancel, List.take_left]

/-- Nothing taken is nothing carried. -/
@[simp] theorem carried_nil (lsp : LSPPayload) : Duplex.carried lsp [] = [] := rfl

/-- Every side is the acting one or its peer. -/
theorem side_cases {Q : Side → Prop} (s : Side) (hself : Q s) (hother : Q s.other) (t : Side) :
    Q t := by
  cases s <;> cases t <;> assumption

section Tidy

variable {d : Duplex} {s : Side} {e : Endpoint}

/-- An end is changed by itself. -/
theorem Tidy.update (h : Tidy d) (hevents : e.link.events = []) : Tidy (d.update s e) := by
  refine side_cases s ?_ ?_
  · rwa [update_self]
  · rw [update_other]
    exact h s.other

/-- An end goes on with a link. -/
theorem Tidy.settle (h : Tidy d) (l : LinkLayer) : Tidy (d.settle s e l) := by
  refine side_cases s ?_ ?_
  · rw [settle_self]
  · rw [settle_other]
    exact h s.other

/-- **One action.** A step of a `Duplex` moves the two ends as listed, and keeps it tidy. -/
theorem step_endMoves {d' : Duplex} {action : Duplex.Action} (h : Tidy d)
    (hstep : d.step (s, action) = some d') :
    Tidy d' ∧ EndMoves (endOf (d s)) (endOf (d s.other)) action
      (endOf (d' s)) (endOf (d' s.other)) := by
  cases action with
  | enqueueCsm payload =>
    obtain rfl := Option.some.inj hstep
    refine ⟨h.update (h s), ?_⟩
    rw [update_self, update_other]
    exact .enqueueCsm payload
  | advance nanos =>
    obtain rfl := Option.some.inj hstep
    refine ⟨h.update (h s), ?_⟩
    rw [update_self, update_other]
    exact .advance nanos
  | drop index =>
    obtain rfl := Option.some.inj hstep
    refine ⟨h.update (h s), ?_⟩
    rw [update_self, update_other]
    exact .drop index
  | duplicate index =>
    obtain rfl := Option.some.inj hstep
    refine ⟨h.update (h s), ?_⟩
    rw [update_self, update_other]
    exact .duplicate index
  | reconcile txBudget =>
    simp only [Duplex.step, Option.bind_eq_bind, Option.bind_eq_some_iff, Option.pure_def,
      Option.some.injEq] at hstep
    obtain ⟨⟨l, more⟩, hreconcile, rfl⟩ := hstep
    obtain ⟨takens, hemits, hqueue, hreads⟩ := reconcile_spec (h s) hreconcile
    refine ⟨h.settle l, ?_⟩
    have hmoves := @EndMoves.reconcile (endOf (d s)) (endOf (d s.other)) txBudget (coreOf l) takens
      (writes l.events) hemits
    rw [settle_self, settle_other]
    dsimp only
    rw [hqueue, dequeued_append, hreads, List.append_nil]
    exact hmoves
  | read =>
    unfold Duplex.step at hstep
    dsimp only at hstep
    split at hstep
    · cases hstep
    · rename_i frame rest hinbox
      simp only [Option.bind_eq_bind, Option.bind_eq_some_iff, Option.pure_def,
        Option.some.injEq] at hstep
      obtain ⟨l, hread, rfl⟩ := hstep
      obtain ⟨delivered, hreads, hcsm, hwrites, hdelivered⟩ := read_spec hread
      refine ⟨h.settle l, ?_⟩
      have hmoves := @EndMoves.read (endOf (d s)) (endOf (d s.other)) frame rest (coreOf l)
        delivered hinbox hreads
      rw [settle_self, settle_other]
      dsimp only
      rw [hwrites, hdelivered, h s]
      have hnone : writes ([] : List LinkEvent) = [] ∧ csmReads ([] : List LinkEvent) = [] :=
        ⟨rfl, rfl⟩
      rw [hnone.1, hnone.2, List.append_nil, List.nil_append]
      exact hmoves

end Tidy

end Catplay.Analysis.Link
