import Catplay.Library.Run
import Catplay.Model.Events.EventsServer

/-!
# In order, one for each request

The events server numbers its requests. What it has written is the answer to the first of them, in
their order (`Tracks`); the others are pending, in flight or completed. A wake-up delivers one
answer at most (`deliver`), so that more than one can be left behind (`answered_iff`).
-/

set_option autoImplicit false

namespace Catplay.Analysis.Events

open Catplay.Model.Events Catplay.Model.Events.EventsServer Catplay.Model.Rtsp Catplay.Library
open Catplay.Library.Run

variable {C : Type} (deserialize : List UInt8 → Except CommandError C)

/-! ## What is to be written -/

/-- The response to a request that no handler is asked about. -/
def refusal (request : RtspRequest) : Option RtspResponse :=
  if request.url ≠ "/command".toList then some (.new none .notFound)
  else
    match deserialize request.payload with
    | .ok _ => none
    | .error err => some (.new none (commandErrorStatus err))

/-- The response to the request of a number, once there is one. -/
def answer (received : List RtspRequest) (finished : IdMap RtspResponse) (n : Nat) :
    Option RtspResponse :=
  match received[n]? with
  | none => none
  | some request =>
    match refusal deserialize request with
    | some resp => some resp
    | none => finished.get? n

/-- **In order**: the responses written are those to the first requests. -/
def InOrder (c : Connection C) : Prop :=
  ∀ n resp, c.written[n]? = some resp → answer deserialize c.received c.finished n = some resp

/-- Nothing inside the server can wake it up: `sleep` gives `None` at once. -/
def Idle (server : EventsServer C) : Prop := server.pending = [] ∧ server.inflight = []

/-- Every request has had its response written. -/
def Answered (c : Connection C) : Prop := c.written.length = c.received.length

variable {deserialize}

section Answer

variable {received : List RtspRequest} {finished : IdMap RtspResponse} {n : Nat}
  {resp : RtspResponse}

theorem answer_of_refusal {request : RtspRequest} (hrequest : received[n]? = some request)
    (h : refusal deserialize request = some resp) :
    answer deserialize received finished n = some resp := by
  unfold answer
  simp only [hrequest, h]

theorem answer_of_read {request : RtspRequest} (hrequest : received[n]? = some request)
    (h : refusal deserialize request = none) :
    answer deserialize received finished n = finished.get? n := by
  unfold answer
  simp only [hrequest, h]

/-- An answer stays when a request comes in. -/
theorem answer_append (request : RtspRequest)
    (h : answer deserialize received finished n = some resp) :
    answer deserialize (received ++ [request]) finished n = some resp := by
  unfold answer at h ⊢
  cases hn : received[n]? with
  | none =>
    simp only [hn] at h
    cases h
  | some old =>
    have hlt := (List.getElem?_eq_some_iff.mp hn).1
    rw [List.getElem?_append_left hlt, hn]
    simp only [hn] at h
    exact h

/-- An answer stays when another handler finishes. -/
theorem answer_insert {id : Nat} (response : RtspResponse) (hnew : finished.get? id = none)
    (h : answer deserialize received finished n = some resp) :
    answer deserialize received (finished.insert id response) n = some resp := by
  unfold answer at h ⊢
  cases hn : received[n]? with
  | none =>
    simp only [hn] at h
    cases h
  | some request =>
    simp only [hn] at h ⊢
    cases hrefusal : refusal deserialize request with
    | some refused =>
      simp only [hrefusal] at h ⊢
      exact h
    | none =>
      simp only [hrefusal] at h ⊢
      rw [IdMap.get?_insert]
      by_cases hid : n = id
      · rw [hid, hnew] at h
        cases h
      · rw [if_neg hid]
        exact h

end Answer

/-! ## The operations of the server -/

section Spawn

theorem spawn_perm (maxInflight : Nat) (pending inflight : IdMap C) (observed : Nat) :
    ((spawn maxInflight pending inflight observed).1 ++
      (spawn maxInflight pending inflight observed).2.1).Perm (pending ++ inflight) := by
  induction pending generalizing inflight observed with
  | nil => exact .refl _
  | cons next pending ih =>
    unfold spawn
    split
    · have hmove : (pending ++ (inflight ++ [next])).Perm (next :: pending ++ inflight) := by
        rw [← List.append_assoc]
        exact List.perm_append_singleton next (pending ++ inflight)
      exact (ih _ _).trans hmove
    · exact .refl _

theorem spawn_full (maxInflight : Nat) (pending inflight : IdMap C) (observed : Nat)
    (h : (spawn maxInflight pending inflight observed).1 ≠ []) :
    maxInflight ≤ (spawn maxInflight pending inflight observed).2.1.length := by
  induction pending generalizing inflight observed with
  | nil => exact absurd rfl h
  | cons next pending ih =>
    unfold spawn at h ⊢
    split
    · rename_i hroom
      rw [if_pos hroom] at h
      exact ih _ _ h
    · rename_i hroom
      exact Nat.le_of_not_lt hroom

/-- What is in flight stays there. -/
theorem spawn_subset (maxInflight : Nat) (pending inflight : IdMap C) (observed : Nat) :
    inflight ⊆ (spawn maxInflight pending inflight observed).2.1 := by
  induction pending generalizing inflight observed with
  | nil => exact fun _ h => h
  | cons next pending ih =>
    unfold spawn
    split
    · exact fun e he => ih _ _ (List.mem_append_left _ he)
    · exact fun _ h => h

end Spawn

/-- What is pending finds all places in flight taken. -/
def Full (server : EventsServer C) : Prop :=
  server.pending ≠ [] → server.maxInflight ≤ server.inflight.length

section Pump

variable (server : EventsServer C)

theorem pumpInflight_perm :
    (server.pumpInflight.pending ++ server.pumpInflight.inflight).Perm
      (server.pending ++ server.inflight) :=
  spawn_perm server.maxInflight server.pending server.inflight server.maxObservedInflight

theorem pumpInflight_subset : server.inflight ⊆ server.pumpInflight.inflight :=
  spawn_subset server.maxInflight server.pending server.inflight server.maxObservedInflight

theorem full_pumpInflight : Full server.pumpInflight :=
  spawn_full server.maxInflight server.pending server.inflight server.maxObservedInflight

/-- Whether there is anything to do is not for the pump to change. -/
theorem idle_pumpInflight : Idle server.pumpInflight ↔ Idle server := by
  have hperm := (pumpInflight_perm server).length_eq
  rw [List.length_append, List.length_append] at hperm
  unfold Idle
  simp only [← List.length_eq_zero_iff]
  omega

end Pump

/-- The next response, and what is written of it at once. -/
def deliver (server : EventsServer C) : EventsServer C × List RtspResponse :=
  server.tryPrepareNextResponse.1.drainNextResponse

theorem drainNextResponse_of_none {server : EventsServer C} (h : server.nextResponse = none) :
    server.drainNextResponse = (server, []) := by
  unfold drainNextResponse
  rw [h]

section Deliver

variable {server : EventsServer C} (h : server.nextResponse = none)

include h

theorem prepare_some {resp : RtspResponse} (hready : server.completed.get? server.nextSend = some resp) :
    server.tryPrepareNextResponse =
      ({ server with
          completed := server.completed.erase server.nextSend
          nextSend := server.nextSend + 1
          nextResponse := some resp }, true) := by
  unfold tryPrepareNextResponse
  rw [h, hready]
  rfl

theorem prepare_none (hready : server.completed.get? server.nextSend = none) :
    server.tryPrepareNextResponse = (server, false) := by
  unfold tryPrepareNextResponse
  rw [h, hready]
  rfl

theorem deliver_some {resp : RtspResponse} (hready : server.completed.get? server.nextSend = some resp) :
    deliver server =
      ({ server with
          completed := server.completed.erase server.nextSend
          nextSend := server.nextSend + 1
          nextResponse := none }, [resp]) := by
  unfold deliver
  rw [prepare_some h hready]
  rfl

theorem deliver_none (hready : server.completed.get? server.nextSend = none) :
    deliver server = (server, []) := by
  unfold deliver
  rw [prepare_none h hready]
  exact drainNextResponse_of_none h

end Deliver

/-! ## What the server keeps track of -/

/-- A request waits for its handler. -/
def Waits (deserialize : List UInt8 → Except CommandError C) (received : List RtspRequest)
    (finished : IdMap RtspResponse) (n : Nat) : Prop :=
  (∃ request, received[n]? = some request ∧ refusal deserialize request = none) ∧
    finished.get? n = none

/-- **Where every request is**: `out` has the answers to the first requests, and each of the others
is pending, in flight or completed. -/
structure Tracks (deserialize : List UInt8 → Except CommandError C) (server : EventsServer C)
    (received : List RtspRequest) (finished : IdMap RtspResponse) (out : List RtspResponse) :
    Prop where
  count : server.nextId = received.length
  sent : server.nextSend = out.length
  le : out.length ≤ received.length
  ids : (IdMap.keys (server.pending ++ server.inflight) ++ server.completed.keys).Perm
    (List.range' out.length (received.length - out.length))
  written : ∀ n resp, out[n]? = some resp → answer deserialize received finished n = some resp
  completed : ∀ e ∈ server.completed, answer deserialize received finished e.1 = some e.2
  waits : ∀ e ∈ server.pending ++ server.inflight, Waits deserialize received finished e.1
  known : ∀ n ∈ finished.keys, n < received.length

section Tracks

variable {server : EventsServer C} {received : List RtspRequest} {finished : IdMap RtspResponse}
  {out : List RtspResponse}

/-- No request is lost. -/
theorem Tracks.total (h : Tracks deserialize server received finished out) :
    server.pending.length + server.inflight.length + server.completed.length + out.length =
      received.length := by
  have hlength := h.ids.length_eq
  have hle := h.le
  rw [List.length_append, IdMap.length_keys, IdMap.length_keys, List.length_append,
    List.length_range'] at hlength
  omega

theorem Tracks.nodup (h : Tracks deserialize server received finished out) :
    (IdMap.keys (server.pending ++ server.inflight) ++ server.completed.keys).Nodup :=
  h.ids.nodup_iff.mpr List.nodup_range'

theorem Tracks.lt (h : Tracks deserialize server received finished out) {n : Nat}
    (hn : n ∈ IdMap.keys (server.pending ++ server.inflight) ++ server.completed.keys) :
    n < received.length := by
  have hrange := h.ids.mem_iff.mp hn
  rw [List.mem_range'_1] at hrange
  have hle := h.le
  omega

theorem Tracks.pump (h : Tracks deserialize server received finished out) :
    Tracks deserialize server.pumpInflight received finished out where
  count := h.count
  sent := h.sent
  le := h.le
  ids := (((pumpInflight_perm server).map Prod.fst).append_right _).trans h.ids
  written := h.written
  completed := h.completed
  waits := fun e he => h.waits e ((pumpInflight_perm server).mem_iff.mp he)
  known := h.known

/-- The number of the next request is new. -/
theorem Tracks.get?_count (h : Tracks deserialize server received finished out) :
    finished.get? received.length = none := by
  rw [IdMap.get?_eq_none_iff]
  intro hmem
  exact Nat.lt_irrefl _ (h.known _ hmem)

theorem range'_grow {a n : Nat} (h : a ≤ n) :
    List.range' a (n + 1 - a) = List.range' a (n - a) ++ [n] := by
  have hsub : n + 1 - a = n - a + 1 := by omega
  have hlast : a + 1 * (n - a) = n := by omega
  rw [hsub, List.range'_concat, hlast]

/-- **A request is refused.** -/
theorem Tracks.refuse (h : Tracks deserialize server received finished out) {request : RtspRequest}
    {resp : RtspResponse} (hrefusal : refusal deserialize request = some resp) :
    Tracks deserialize
      { server with
        nextId := server.nextId + 1
        completed := server.completed.insert server.nextId resp }
      (received ++ [request]) finished out := by
  have hnew : (received ++ [request])[received.length]? = some request := by simp
  have hfresh : received.length ∉ server.completed.keys := fun hmem =>
    Nat.lt_irrefl _ (h.lt (List.mem_append_right _ hmem))
  have hinsert : server.completed.insert server.nextId resp =
      (received.length, resp) :: server.completed := by
    rw [IdMap.insert, h.count, IdMap.erase_of_fresh hfresh]
  have hlength : (received ++ [request]).length = received.length + 1 := by simp
  refine ⟨?_, h.sent, ?_, ?_, ?_, ?_, ?_, ?_⟩
  · rw [hlength]
    exact congrArg (· + 1) h.count
  · rw [hlength]
    exact Nat.le_succ_of_le h.le
  · dsimp only
    rw [hinsert, hlength, range'_grow h.le, IdMap.keys_cons]
    exact List.perm_middle.trans ((List.perm_append_singleton _ _).symm.trans
      (h.ids.append_right _))
  · intro n resp' hn
    exact answer_append request (h.written n resp' hn)
  · intro e he
    dsimp only at he
    rw [hinsert] at he
    rcases List.mem_cons.mp he with rfl | hold
    · exact answer_of_refusal hnew hrefusal
    · exact answer_append request (h.completed e hold)
  · intro e he
    obtain ⟨⟨old, hold, hread⟩, hget⟩ := h.waits e he
    have hlt := (List.getElem?_eq_some_iff.mp hold).1
    exact ⟨⟨old, by rw [List.getElem?_append_left hlt, hold], hread⟩, hget⟩
  · intro n hn
    rw [hlength]
    exact Nat.lt_succ_of_lt (h.known n hn)

/-- **A command is read.** -/
theorem Tracks.enqueue (h : Tracks deserialize server received finished out) {request : RtspRequest}
    (hrefusal : refusal deserialize request = none) (cmd : C) :
    Tracks deserialize
      { server with
        nextId := server.nextId + 1
        pending := server.pending ++ [(server.nextId, cmd)] }
      (received ++ [request]) finished out := by
  have hnew : (received ++ [request])[received.length]? = some request := by simp
  have hlength : (received ++ [request]).length = received.length + 1 := by simp
  have hwaits : ∀ e ∈ server.pending ++ server.inflight,
      Waits deserialize (received ++ [request]) finished e.1 := by
    intro e he
    obtain ⟨⟨old, hold, hread⟩, hget⟩ := h.waits e he
    have hlt := (List.getElem?_eq_some_iff.mp hold).1
    exact ⟨⟨old, by rw [List.getElem?_append_left hlt, hold], hread⟩, hget⟩
  have hmove : (server.pending ++ [(server.nextId, cmd)] ++ server.inflight).Perm
      ((server.nextId, cmd) :: (server.pending ++ server.inflight)) := by
    rw [List.append_assoc]
    exact List.perm_middle
  refine ⟨?_, h.sent, ?_, ?_, ?_, ?_, ?_, ?_⟩
  · rw [hlength]
    exact congrArg (· + 1) h.count
  · rw [hlength]
    exact Nat.le_succ_of_le h.le
  · rw [hlength, range'_grow h.le]
    have hkeys := (hmove.map Prod.fst).append_right server.completed.keys
    rw [← h.count]
    exact hkeys.trans ((List.perm_append_singleton _ _).symm.trans
      ((h.ids.append_right _).trans (by rw [h.count])))
  · intro n resp' hn
    exact answer_append request (h.written n resp' hn)
  · intro e he
    exact answer_append request (h.completed e he)
  · intro e he
    rcases List.mem_cons.mp (hmove.mem_iff.mp he) with rfl | hold
    · refine ⟨⟨request, ?_, hrefusal⟩, ?_⟩
      · rw [h.count]
        exact hnew
      · rw [h.count]
        exact h.get?_count
    · exact hwaits e hold
  · intro n hn
    rw [hlength]
    exact Nat.lt_succ_of_lt (h.known n hn)

/-- **A handler finishes.** -/
theorem Tracks.finish (h : Tracks deserialize server received finished out) {id : Nat}
    (hid : id ∈ server.inflight.keys) (resp : RtspResponse) :
    Tracks deserialize
      { server with
        inflight := server.inflight.erase id
        completed := server.completed.insert id resp }
      received (finished.insert id resp) out := by
  obtain ⟨hwaiting, hcompleted, hdisjoint⟩ := List.nodup_append.mp h.nodup
  rw [IdMap.keys_append] at hwaiting hdisjoint
  obtain ⟨-, hinflight, happart⟩ := List.nodup_append.mp hwaiting
  have hfresh : id ∉ server.completed.keys := fun hmem =>
    hdisjoint id (List.mem_append_right _ hid) id hmem rfl
  have hpending : id ∉ server.pending.keys := fun hmem => happart id hmem id hid rfl
  have hinsert : server.completed.insert id resp = (id, resp) :: server.completed := by
    rw [IdMap.insert, IdMap.erase_of_fresh hfresh]
  obtain ⟨cmd, hcmd⟩ := IdMap.exists_of_mem_keys hid
  obtain ⟨⟨request, hrequest, hread⟩, hnew⟩ :=
    h.waits (id, cmd) (List.mem_append_right _ (IdMap.mem_of_get? hcmd))
  have hkeys := IdMap.keys_perm_cons_erase hinflight hid
  have hmove : (IdMap.keys (server.pending ++ server.inflight.erase id) ++
      (id :: server.completed.keys)).Perm
        (IdMap.keys (server.pending ++ server.inflight) ++ server.completed.keys) := by
    rw [IdMap.keys_append, IdMap.keys_append]
    have hleft : (server.pending.keys ++ (server.inflight.erase id).keys ++
        (id :: server.completed.keys)).Perm
          (server.pending.keys ++ (id :: (server.inflight.erase id).keys) ++
            server.completed.keys) :=
      List.perm_middle.trans (List.perm_middle.symm.append_right server.completed.keys)
    exact hleft.trans ((hkeys.symm.append_left _).append_right _)
  refine ⟨h.count, h.sent, h.le, ?_, ?_, ?_, ?_, ?_⟩
  · dsimp only
    rw [hinsert, IdMap.keys_cons]
    exact hmove.trans h.ids
  · intro n resp' hn
    exact answer_insert resp hnew (h.written n resp' hn)
  · intro e he
    dsimp only at he
    rw [hinsert] at he
    rcases List.mem_cons.mp he with rfl | hold
    · rw [answer_of_read hrequest hread, IdMap.get?_insert, if_pos rfl]
    · exact answer_insert resp hnew (h.completed e hold)
  · intro e he
    have hold : e ∈ server.pending ++ server.inflight ∧ e.1 ≠ id := by
      rcases List.mem_append.mp he with hmem | hmem
      · refine ⟨List.mem_append_left _ hmem, ?_⟩
        rintro rfl
        exact hpending (IdMap.mem_keys_of_mem hmem)
      · obtain ⟨hmem', hne⟩ := IdMap.mem_erase.mp hmem
        exact ⟨List.mem_append_right _ hmem', hne⟩
    obtain ⟨hrest, hget⟩ := h.waits e hold.1
    exact ⟨hrest, by rw [IdMap.get?_insert, if_neg hold.2, hget]⟩
  · intro n hn
    rw [IdMap.insert, IdMap.keys_cons] at hn
    rcases List.mem_cons.mp hn with rfl | hold
    · exact (List.getElem?_eq_some_iff.mp hrequest).1
    · obtain ⟨e, he, rfl⟩ := List.mem_map.mp hold
      exact h.known e.1 (IdMap.mem_keys_of_mem (IdMap.mem_erase.mp he).1)

/-- **The next answer is delivered.** -/
theorem Tracks.deliver (h : Tracks deserialize server received finished out)
    (hnone : server.nextResponse = none) :
    Tracks deserialize (deliver server).1 received finished (out ++ (deliver server).2) := by
  cases hready : server.completed.get? server.nextSend with
  | none =>
    rw [deliver_none hnone hready, List.append_nil]
    exact h
  | some resp =>
    rw [deliver_some hnone hready]
    have hentry := IdMap.mem_of_get? hready
    have hmem := IdMap.mem_keys_of_mem hentry
    have hlt := h.lt (List.mem_append_right _ hmem)
    have hkeys := IdMap.keys_perm_cons_erase (List.nodup_append.mp h.nodup).2.1 hmem
    have hlength : (out ++ [resp]).length = out.length + 1 := List.length_append
    have hsent := h.sent
    dsimp only at hmem hlt hkeys
    have hrange : List.range' out.length (received.length - out.length) =
        out.length :: List.range' (out.length + 1) (received.length - (out.length + 1)) := by
      have hsub : received.length - out.length = received.length - (out.length + 1) + 1 := by omega
      rw [hsub, List.range'_succ]
    refine ⟨h.count, ?_, ?_, ?_, ?_, ?_, h.waits, h.known⟩
    · rw [hlength, ← hsent]
    · rw [hlength]
      omega
    · rw [hlength]
      have hids := h.ids
      rw [hrange, ← hsent] at hids
      have hmove := (hkeys.append_left
        (IdMap.keys (server.pending ++ server.inflight))).symm.trans hids
      rw [← hsent]
      exact (List.perm_middle.symm.trans hmove).cons_inv
    · intro n resp' hn
      rw [List.getElem?_append] at hn
      split at hn
      · exact h.written n resp' hn
      · rename_i hge
        have hn' : n = out.length ∧ resp = resp' := by
          cases hsub : n - out.length with
          | zero =>
            rw [hsub] at hn
            exact ⟨by omega, Option.some.inj hn⟩
          | succ k =>
            rw [hsub] at hn
            cases hn
        obtain ⟨rfl, rfl⟩ := hn'
        rw [← hsent]
        exact h.completed _ hentry
    · intro e he
      exact h.completed e (IdMap.mem_erase.mp he).1

end Tracks

theorem deliver_nextResponse {server : EventsServer C} (h : server.nextResponse = none) :
    (deliver server).1.nextResponse = none := by
  cases hready : server.completed.get? server.nextSend with
  | none =>
    rw [deliver_none h hready]
    exact h
  | some resp => rw [deliver_some h hready]

/-- To deliver an answer starts nothing and ends nothing. -/
theorem deliver_busy {server : EventsServer C} (h : server.nextResponse = none) :
    (deliver server).1.pending = server.pending ∧ (deliver server).1.inflight = server.inflight ∧
      (deliver server).1.maxInflight = server.maxInflight := by
  cases hready : server.completed.get? server.nextSend with
  | none =>
    rw [deliver_none h hready]
    exact ⟨rfl, rfl, rfl⟩
  | some resp =>
    rw [deliver_some h hready]
    exact ⟨rfl, rfl, rfl⟩

/-- **One answer at a time**: an idle server has delivered all its answers if one was left at
most. -/
theorem Tracks.deliver_answered {server : EventsServer C} {received : List RtspRequest}
    {finished : IdMap RtspResponse} {out : List RtspResponse}
    (h : Tracks deserialize server received finished out) (hnone : server.nextResponse = none)
    (hidle : Idle server) :
    (out ++ (Events.deliver server).2).length = received.length ↔ server.completed.length ≤ 1 := by
  obtain ⟨hpending, hinflight⟩ := hidle
  have htotal := h.total
  rw [hpending, hinflight, List.length_nil, Nat.zero_add] at htotal
  cases hready : server.completed.get? server.nextSend with
  | none =>
    have hempty : server.completed.length = 0 := by
      by_contra hne
      refine IdMap.get?_eq_none_iff.mp hready ?_
      have hmem : out.length ∈ List.range' out.length (received.length - out.length) := by
        rw [List.mem_range'_1]
        omega
      have hids := h.ids.mem_iff.mpr hmem
      rw [hpending, hinflight] at hids
      rw [h.sent]
      exact hids
    rw [deliver_none hnone hready, List.append_nil]
    omega
  | some resp =>
    have hpos : 0 < server.completed.length :=
      List.length_pos_of_mem (IdMap.mem_of_get? hready)
    rw [deliver_some hnone hready, List.length_append, List.length_singleton]
    omega

/-! ## A batch of messages -/

section Messages

variable {server server' : EventsServer C} {received : List RtspRequest}
  {finished : IdMap RtspResponse} {out : List RtspResponse}

theorem accept_refused {request : RtspRequest} {resp : RtspResponse}
    (h : refusal deserialize request = some resp) :
    accept deserialize server (.request request) =
      .ok { server with
        nextId := server.nextId + 1
        completed := server.completed.insert server.nextId resp } := by
  unfold refusal at h
  unfold accept
  by_cases hurl : request.url ≠ "/command".toList
  · rw [if_pos hurl] at h
    obtain rfl := Option.some.inj h
    exact if_pos hurl
  · rw [if_neg hurl] at h
    refine (if_neg hurl).trans ?_
    cases hcmd : deserialize request.payload with
    | ok cmd =>
      rw [hcmd] at h
      cases h
    | error err =>
      rw [hcmd] at h
      obtain rfl := Option.some.inj h
      rfl

theorem accept_read {request : RtspRequest} (h : refusal deserialize request = none) :
    ∃ cmd, accept deserialize server (.request request) =
      .ok { server with
        nextId := server.nextId + 1
        pending := server.pending ++ [(server.nextId, cmd)] }.pumpInflight := by
  unfold refusal at h
  unfold accept
  by_cases hurl : request.url ≠ "/command".toList
  · rw [if_pos hurl] at h
    cases h
  · rw [if_neg hurl] at h
    cases hcmd : deserialize request.payload with
    | ok cmd =>
      refine ⟨cmd, (if_neg hurl).trans ?_⟩
      rw [hcmd]
    | error err =>
      rw [hcmd] at h
      cases h

/-- What the loop keeps, besides the account of the requests. -/
structure Kept (server server' : EventsServer C) : Prop where
  nextResponse : server'.nextResponse = server.nextResponse
  maxInflight : server'.maxInflight = server.maxInflight
  full : Full server → Full server'

theorem Kept.trans {server'' : EventsServer C} (h : Kept server server')
    (h' : Kept server' server'') : Kept server server'' :=
  ⟨h'.nextResponse.trans h.nextResponse, h'.maxInflight.trans h.maxInflight,
    fun hfull => h'.full (h.full hfull)⟩

/-- **A batch is taken in.** An idle server is idle behind it if no command could be read, and then
has one completed response more for each request. -/
theorem accept_messages {msgs : List RtspFrame}
    (htracks : Tracks deserialize server received finished out)
    (h : msgs.foldlM (accept deserialize) server = .ok server') :
    Tracks deserialize server' (received ++ Connection.requests msgs) finished out ∧
      Kept server server' ∧
      (Idle server' ↔ Idle server ∧ ∀ request ∈ Connection.requests msgs,
        (refusal deserialize request).isSome) ∧
      (Idle server' → server'.completed.length = server.completed.length + msgs.length) := by
  induction msgs generalizing server received with
  | nil =>
    obtain rfl := Except.ok.inj h
    have hnone : Connection.requests [] = [] := rfl
    rw [hnone, List.append_nil]
    exact ⟨htracks, ⟨rfl, rfl, id⟩, by simp, fun _ => rfl⟩
  | cons msg msgs ih =>
    rw [List.foldlM_cons] at h
    cases msg with
    | response response => cases h
    | request request =>
      have hrequests : Connection.requests (.request request :: msgs) =
          request :: Connection.requests msgs := rfl
      cases hrefusal : refusal deserialize request with
      | some resp =>
        rw [accept_refused hrefusal] at h
        obtain ⟨htracks', hkept, hidle, hcount⟩ := ih (htracks.refuse hrefusal) h
        have hstep : Kept server
            { server with
              nextId := server.nextId + 1
              completed := server.completed.insert server.nextId resp } := ⟨rfl, rfl, id⟩
        rw [List.append_assoc] at htracks'
        refine ⟨htracks', hstep.trans hkept, ?_, ?_⟩
        · rw [hidle, hrequests]
          simp [hrefusal, Idle]
        · intro hnow
          have hfresh : server.nextId ∉ server.completed.keys := by
            intro hmem
            have hlt := htracks.lt (List.mem_append_right _ hmem)
            rw [htracks.count] at hlt
            exact Nat.lt_irrefl _ hlt
          rw [hcount hnow, IdMap.insert, IdMap.erase_of_fresh hfresh, List.length_cons,
            List.length_cons]
          omega
      | none =>
        obtain ⟨cmd, hcmd⟩ := @accept_read _ _ server request hrefusal
        rw [hcmd] at h
        obtain ⟨htracks', hkept, hidle, hcount⟩ := ih (htracks.enqueue hrefusal cmd).pump h
        have hstep : Kept server
            { server with
              nextId := server.nextId + 1
              pending := server.pending ++ [(server.nextId, cmd)] }.pumpInflight :=
          ⟨rfl, rfl, fun _ => full_pumpInflight _⟩
        have hbusy : ¬Idle server' := by
          rw [hidle, idle_pumpInflight]
          rintro ⟨⟨hpending, -⟩, -⟩
          exact List.append_ne_nil_of_right_ne_nil _ (List.cons_ne_nil _ _) hpending
        rw [List.append_assoc] at htracks'
        refine ⟨htracks', hstep.trans hkept, ?_, fun hnow => absurd hnow hbusy⟩
        refine ⟨fun hnow => absurd hnow hbusy, ?_⟩
        rintro ⟨-, hall⟩
        have hhere := hall request (by rw [hrequests]; exact List.mem_cons_self)
        rw [hrefusal] at hhere
        cases hhere

end Messages

/-! ## The connection -/

/-- **The invariant of a connection.** -/
structure Sound (deserialize : List UInt8 → Except CommandError C) (c : Connection C) : Prop where
  tracks : Tracks deserialize c.server c.received c.finished c.written
  drained : c.server.nextResponse = none
  full : Full c.server
  room : 1 ≤ c.server.maxInflight

theorem sound_start {maxInflight : Nat} (h : 1 ≤ maxInflight) :
    Sound deserialize (Connection.start (C := C) maxInflight) where
  tracks :=
    { count := rfl
      sent := rfl
      le := Nat.le_refl _
      ids := .refl _
      written := fun _ _ h => nomatch h
      completed := fun _ h => nomatch h
      waits := fun _ h => nomatch h
      known := fun _ h => nomatch h }
  drained := rfl
  full := fun h => absurd rfl h
  room := h

theorem Sound.inOrder {c : Connection C} (h : Sound deserialize c) : InOrder deserialize c :=
  h.tracks.written

/-- An idle connection has answered every request if nothing is completed. -/
theorem Sound.answered_iff {c : Connection C} (h : Sound deserialize c) (hidle : Idle c.server) :
    Answered c ↔ c.server.completed = [] := by
  have htotal := h.tracks.total
  obtain ⟨hpending, hinflight⟩ := hidle
  rw [hpending, hinflight, List.length_nil, Nat.zero_add] at htotal
  unfold Answered
  rw [← List.length_eq_zero_iff]
  omega

/-- **When a wake-up leaves nothing behind**: a batch without a command that can be read comes to an
idle server one request at a time, and the last handler finishes with no finished response waiting
for it. -/
def NothingLeft (deserialize : List UInt8 → Except CommandError C) (c : Connection C) :
    Event → Prop
  | .messages msgs =>
    Idle c.server →
      (∀ request ∈ Connection.requests msgs, (refusal deserialize request).isSome) →
        msgs.length ≤ 1
  | .finishes _ _ =>
    c.server.pending = [] → c.server.inflight.length = 1 → c.server.completed = []
  | .writable => True

/-- There is nothing to write on a wake-up. -/
theorem wake_of_drained {c : Connection C} (h : c.server.nextResponse = none) :
    c.wake = { c with polled := true } := by
  unfold Connection.wake reconcile
  rw [drainNextResponse_of_none h]
  simp only [List.append_nil]

/-- **A batch comes**: it is taken in, and then an answer is delivered. -/
theorem step_messages {c d : Connection C} {msgs : List RtspFrame}
    (hdrained : c.server.nextResponse = none)
    (hstep : c.step deserialize (.messages msgs) = some d) :
    ∃ server, msgs.foldlM (accept deserialize) c.server = .ok server ∧
      (server.nextResponse = none →
        d = ⟨(deliver server).1, true, c.written ++ (deliver server).2,
          c.received ++ Connection.requests msgs, c.finished⟩) := by
  have honMsg : c.server.onMsg deserialize msgs =
      (msgs.foldlM (accept deserialize) c.server).map deliver := by
    unfold onMsg
    rw [drainNextResponse_of_none hdrained]
    dsimp only
    cases msgs.foldlM (accept deserialize) c.server <;> rfl
  unfold Connection.step at hstep
  dsimp only at hstep
  rw [honMsg] at hstep
  cases hfold : msgs.foldlM (accept deserialize) c.server with
  | error e =>
    rw [hfold] at hstep
    cases hstep
  | ok server =>
    rw [hfold] at hstep
    refine ⟨server, rfl, fun hnone => ?_⟩
    obtain rfl := Option.some.inj hstep
    exact @wake_of_drained C ⟨(deliver server).1, c.polled, c.written ++ (deliver server).2,
      c.received ++ Connection.requests msgs, c.finished⟩ (deliver_nextResponse hnone)

/-- **A handler finishes**: its answer is completed, and then an answer is delivered. -/
theorem step_finishes {c d : Connection C} {id : Nat} {resp : RtspResponse}
    (hdrained : c.server.nextResponse = none)
    (hstep : c.step deserialize (.finishes id resp) = some d) :
    id ∈ c.server.inflight.keys ∧
      ∃ server polled, server =
        { c.server.pumpInflight with
          inflight := c.server.pumpInflight.inflight.erase id
          completed := c.server.completed.insert id resp }.pumpInflight ∧
        d = ⟨(deliver server).1, polled, c.written ++ (deliver server).2, c.received,
          c.finished.insert id resp⟩ := by
  unfold Connection.step at hstep
  dsimp only at hstep
  split at hstep
  · rename_i hguard
    refine ⟨hguard.2, ?_⟩
    have hbusy : (c.server.inflight.isEmpty && c.server.pending.isEmpty) = false := by
      cases hinflight : c.server.inflight with
      | nil =>
        have hmem := hguard.2
        rw [hinflight] at hmem
        cases hmem
      | cons e inflight => rfl
    generalize hserver : { c.server.pumpInflight with
      inflight := c.server.pumpInflight.inflight.erase id
      completed := c.server.completed.insert id resp }.pumpInflight = server
    have hsleep : c.server.sleep id resp = server.tryPrepareNextResponse := by
      unfold sleep
      rw [hbusy, ← hserver]
      rfl
    have hnone : server.nextResponse = none := by
      rw [← hserver]
      exact hdrained
    rw [hsleep] at hstep
    cases hready : server.completed.get? server.nextSend with
    | none =>
      rw [prepare_none hnone hready] at hstep
      refine ⟨server, false, rfl, ?_⟩
      rw [deliver_none hnone hready, List.append_nil]
      exact (Option.some.inj hstep).symm
    | some first =>
      rw [prepare_some hnone hready] at hstep
      refine ⟨server, true, rfl, ?_⟩
      rw [deliver_some hnone hready]
      exact (Option.some.inj hstep).symm
  · cases hstep

/-- **What an event does**: the account of the requests is kept, and an idle connection that had
answered everything has answered everything again if and only if the event leaves nothing. -/
theorem sound_step {c d : Connection C} {event : Event} (h : Sound deserialize c)
    (hstep : c.step deserialize event = some d) :
    Sound deserialize d ∧
      ((Idle c.server → Answered c) →
        ((Idle d.server → Answered d) ↔ NothingLeft deserialize c event)) := by
  cases event with
  | messages msgs =>
    obtain ⟨server, hfold, hd⟩ := step_messages h.drained hstep
    obtain ⟨htracks, hkept, hidle, hcount⟩ := accept_messages h.tracks hfold
    have hnone : server.nextResponse = none := hkept.nextResponse.trans h.drained
    obtain rfl := hd hnone
    obtain ⟨hpending, hinflight, hmax⟩ := deliver_busy hnone
    have hsame : Idle (deliver server).1 ↔ Idle server := by
      unfold Idle
      rw [hpending, hinflight]
    refine ⟨⟨htracks.deliver hnone, deliver_nextResponse hnone, ?_, ?_⟩, fun hbefore => ?_⟩
    · intro hwaiting
      dsimp only at hwaiting ⊢
      rw [hpending] at hwaiting
      rw [hmax, hinflight]
      exact hkept.full h.full hwaiting
    · show 1 ≤ (deliver server).1.maxInflight
      rw [hmax, hkept.maxInflight]
      exact h.room
    · dsimp only
      rw [hsame]
      constructor
      · intro hafter hwas hall
        have hnow := hidle.mpr ⟨hwas, hall⟩
        have hle := (htracks.deliver_answered hnone hnow).mp (hafter hnow)
        rw [hcount hnow, (h.answered_iff hwas).mp (hbefore hwas)] at hle
        simpa using hle
      · intro hcond hnow
        obtain ⟨hwas, hall⟩ := hidle.mp hnow
        have hle := hcond hwas hall
        refine (htracks.deliver_answered hnone hnow).mpr ?_
        rw [hcount hnow, (h.answered_iff hwas).mp (hbefore hwas)]
        simpa using hle
  | finishes id resp =>
    obtain ⟨hid, server, polled, hserver, rfl⟩ := step_finishes h.drained hstep
    have hid' : id ∈ c.server.pumpInflight.inflight.keys := by
      obtain ⟨cmd, hcmd⟩ := IdMap.exists_of_mem_keys hid
      exact IdMap.mem_keys_of_mem (pumpInflight_subset c.server (IdMap.mem_of_get? hcmd))
    have htracks : Tracks deserialize server c.received (c.finished.insert id resp) c.written := by
      rw [hserver]
      exact (h.tracks.pump.finish hid' resp).pump
    have hnone : server.nextResponse = none := by
      rw [hserver]
      exact h.drained
    have hmax : server.maxInflight = c.server.maxInflight := by
      rw [hserver]
      rfl
    have hcompleted : server.completed.length = c.server.completed.length + 1 := by
      have hfresh : id ∉ c.server.completed.keys := by
        have hdisjoint := (List.nodup_append.mp h.tracks.nodup).2.2
        intro hmem
        refine hdisjoint id ?_ id hmem rfl
        rw [IdMap.keys_append]
        exact List.mem_append_right _ hid
      rw [hserver]
      show (c.server.completed.insert id resp).length = _
      rw [IdMap.insert, IdMap.erase_of_fresh hfresh, List.length_cons]
    have hidle : Idle server ↔ c.server.pending = [] ∧ c.server.inflight.length = 1 := by
      have hbefore := h.tracks.total
      have hafter := htracks.total
      have hpos : 0 < c.server.inflight.length := by
        rw [← IdMap.length_keys]
        exact List.length_pos_of_mem hid
      unfold Idle
      simp only [← List.length_eq_zero_iff]
      omega
    obtain ⟨hpending, hinflight, hmax'⟩ := deliver_busy hnone
    have hsame : Idle (deliver server).1 ↔ Idle server := by
      unfold Idle
      rw [hpending, hinflight]
    refine ⟨⟨htracks.deliver hnone, deliver_nextResponse hnone, ?_, ?_⟩, fun _ => ?_⟩
    · intro hwaiting
      dsimp only at hwaiting ⊢
      rw [hpending] at hwaiting
      rw [hmax', hinflight]
      have hfull : Full server := by
        rw [hserver]
        exact full_pumpInflight _
      exact hfull hwaiting
    · show 1 ≤ (deliver server).1.maxInflight
      rw [hmax', hmax]
      exact h.room
    · have hanswered := fun hnow => htracks.deliver_answered hnone hnow
      dsimp only
      rw [hsame]
      constructor
      · intro hafter hpending hone
        have hnow := hidle.mpr ⟨hpending, hone⟩
        have hle := (hanswered hnow).mp (hafter hnow)
        rw [hcompleted] at hle
        exact List.length_eq_zero_iff.mp (by omega)
      · intro hcond hnow
        obtain ⟨hpending, hone⟩ := hidle.mp hnow
        refine (hanswered hnow).mpr ?_
        rw [hcompleted, hcond hpending hone, List.length_nil]
  | writable =>
    obtain rfl := Option.some.inj hstep
    rw [wake_of_drained h.drained]
    exact ⟨⟨h.tracks, h.drained, h.full, h.room⟩, fun hbefore =>
      ⟨fun _ => trivial, fun _ => hbefore⟩⟩

theorem sound_run {c d : Connection C} {events : List Event} (h : Sound deserialize c)
    (hrun : run (Connection.step deserialize) c events = some d) : Sound deserialize d :=
  run_invariant (Sound deserialize) (fun _ _ _ h hstep => (sound_step h hstep).1) h hrun

/-- **A run whose events leave nothing** is one in which every idle connection has answered
everything. -/
theorem answered_run {c last : Connection C} {events : List Event} (h : Sound deserialize c)
    (hanswered : Idle c.server → Answered c)
    (hrun : run (Connection.step deserialize) c events = some last) :
    (∀ front d, front <+: events → run (Connection.step deserialize) c front = some d →
      Idle d.server → Answered d) ↔
        AllSteps (Connection.step deserialize) (NothingLeft deserialize) c events :=
  run_iff_allSteps (Sound deserialize) (fun c => Idle c.server → Answered c) (NothingLeft deserialize)
    (fun _ _ _ hsound hbefore hstep =>
      ⟨(sound_step hsound hstep).1, (sound_step hsound hstep).2 hbefore⟩) h hanswered hrun

/-- **In order, and when nothing is left.** In every run the responses written are those to the
first requests, in their order. At each of its states that is idle every request has been answered
if and only if every event of the run leaves nothing. -/
theorem answered_iff_nothingLeft (deserialize : List UInt8 → Except CommandError C)
    {maxInflight : Nat} (hroom : 1 ≤ maxInflight) {events : List Event} {c : Connection C}
    (hrun : run (Connection.step deserialize) (.start maxInflight) events = some c) :
    InOrder deserialize c ∧
      ((∀ front d, front <+: events →
          run (Connection.step deserialize) (.start maxInflight) front = some d →
            Idle d.server → Answered d) ↔
        AllSteps (Connection.step deserialize) (NothingLeft deserialize) (.start maxInflight)
          events) :=
  ⟨(sound_run (sound_start hroom) hrun).inOrder,
    answered_run (sound_start hroom) (fun _ => rfl) hrun⟩

/-- Two requests for other URLs. -/
def strayRequests : List RtspFrame :=
  List.replicate 2 (.request ⟨.get, "/info".toList, rtspDefaultProto, [], [], none⟩)

def readsNone : List UInt8 → Except CommandError Unit := fun _ => .error .invalidPayload

theorem answered_iff_nothingLeft_stray :
    ∃ c, run (Connection.step readsNone) (.start 1) [.messages strayRequests] = some c ∧
      InOrder readsNone c := by
  have hrun : (run (Connection.step readsNone) (.start 1) [.messages strayRequests]).isSome := by
    decide
  obtain ⟨c, hc⟩ := Option.isSome_iff_exists.mp hrun
  exact ⟨c, hc, (answered_iff_nothingLeft readsNone (Nat.le_refl 1) hc).1⟩

/-- **Two at once**: the second stays unanswered, and the server does not wake up for it. -/
theorem strayRequests_left :
    ∃ c, run (Connection.step readsNone) (.start 1) [.messages strayRequests] = some c ∧
      Idle c.server ∧ c.received.length = 2 ∧ c.written.length = 1 := by
  have hrun : (run (Connection.step readsNone) (.start 1) [.messages strayRequests]).any
      (fun c => c.server.pending.isEmpty && c.server.inflight.isEmpty && c.received.length == 2 &&
        c.written.length == 1) = true := by
    decide
  obtain ⟨c, hc, hall⟩ := (Option.any_eq_true _ _).mp hrun
  simp only [Bool.and_eq_true, List.isEmpty_iff, beq_iff_eq] at hall
  exact ⟨c, hc, ⟨hall.1.1.1, hall.1.1.2⟩, hall.1.2, hall.2⟩

end Catplay.Analysis.Events
