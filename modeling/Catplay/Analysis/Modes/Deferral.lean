import Catplay.Analysis.Modes.Requests

/-!
# Reports that wait for the requests in flight

A report of the phone that comes in while a `ChangeModes` exchange is in flight waits until the
last such exchange has ended. The history of a run beside the arbiter is the list of the reports
that were applied, each with the accepted request it was paired with. Applied and waiting reports
together are the reports received, in their order (`reports_inOrder`), and the state of the arbiter
is what the applied ones make of it.
-/

set_option autoImplicit false

namespace Catplay.Analysis.Modes.Deferral

open Catplay.Library.Run Catplay.Model.Modes Catplay.Model.Modes.ModesArbiter

/-- The reports that the calls bring. -/
def received : List Call → List ModesChanged
  | [] => []
  | .peerModesChanged modes :: calls => modes :: received calls
  | _ :: calls => received calls

/-- What a report, paired with an accepted request, makes of the modes. -/
def applyReport (modes : ResourceController) (report : ModesChanged × Option ChangeModes) :
    ResourceController :=
  ((⟨modes, true, [], [], []⟩ : ModesArbiter).applyPeerModes report.1 report.2).modes

/-- Reports beside the accepted requests, as long as there are any. -/
def pairUp : List ModesChanged → List ChangeModes → List (ModesChanged × Option ChangeModes)
  | [], _ => []
  | modes :: rest, accepted => (modes, accepted.head?) :: pairUp rest accepted.tail

/-- The reports that a call applies. -/
def appliedBy (a : ModesArbiter) : Call → List (ModesChanged × Option ChangeModes)
  | .peerModesChanged modes =>
    if a.inflightPeerChangeModes.isEmpty then pairUp [modes] a.acceptedPeerChangeModes else []
  | .peerChangeModesEnd resp =>
    match a.inflightPeerChangeModes with
    | [request] =>
      pairUp a.pendingPeerModesChanged
        (if resp.status ≠ 0 then a.acceptedPeerChangeModes
          else a.acceptedPeerChangeModes ++ [request])
    | _ => []
  | _ => []

def note (a : ModesArbiter) (c : Call) (_ : ModesArbiter)
    (log : List (ModesChanged × Option ChangeModes)) : List (ModesChanged × Option ChangeModes) :=
  log ++ appliedBy a c

/-- The arbiter beside the reports that it has applied. -/
abbrev Logged : Type := ModesArbiter × List (ModesChanged × Option ChangeModes)

def loggedStep : Logged → Call → Option Logged := withHistory note ModesArbiter.step

/-- The call of the phone's side. -/
def isPeerCall : Call → Bool
  | .peerChangeModesStart _ | .peerChangeModesEnd _ | .peerModesChanged _ => true
  | _ => false

/-! ## Applying reports -/

theorem pairUp_fst (reports : List ModesChanged) (accepted : List ChangeModes) :
    (pairUp reports accepted).map Prod.fst = reports := by
  induction reports generalizing accepted with
  | nil => rfl
  | cons modes rest ih =>
    rw [pairUp, List.map_cons, ih]

/-- A report changes the modes, and takes the oldest accepted request with it. -/
theorem applyWithAccepted_modes (a : ModesArbiter) (modes : ModesChanged) :
    (a.applyWithAccepted modes).modes =
      applyReport a.modes (modes, a.acceptedPeerChangeModes.head?) := rfl

/-- The queue is applied from its front. -/
theorem drainPending_spec (a : ModesArbiter) (queue : List ModesChanged) :
    (a.drainPending queue).modes =
        (pairUp queue a.acceptedPeerChangeModes).foldl applyReport a.modes ∧
      (a.drainPending queue).pendingPeerModesChanged = [] ∧
      (a.drainPending queue).inflightPeerChangeModes = a.inflightPeerChangeModes := by
  induction queue generalizing a with
  | nil => exact ⟨rfl, rfl, rfl⟩
  | cons modes rest ih =>
    obtain ⟨hmodes, hpending, hinflight⟩ := ih (a.applyWithAccepted modes)
    rw [drainPending, pairUp, List.foldl_cons]
    exact ⟨hmodes, hpending, hinflight⟩

/-! ## Calls -/

/-- What a call does with the reports. -/
structure Defers (a : ModesArbiter) (c : Call) (b : ModesArbiter) : Prop where
  kept : (appliedBy a c).map Prod.fst ++ b.pendingPeerModesChanged =
    a.pendingPeerModesChanged ++ received [c]
  state : isPeerCall c = true → b.modes = (appliedBy a c).foldl applyReport a.modes
  inflight : b.inflightPeerChangeModes ≠ [] → appliedBy a c = []
  idle : b.inflightPeerChangeModes = [] → b.pendingPeerModesChanged = []

/-- A call that touches neither the reports nor the exchanges. -/
theorem Defers.of_same {a b : ModesArbiter} {c : Call} (hc : isPeerCall c = false)
    (hpending : b.pendingPeerModesChanged = a.pendingPeerModesChanged)
    (hinflight : b.inflightPeerChangeModes = a.inflightPeerChangeModes)
    (hidle : a.inflightPeerChangeModes = [] → a.pendingPeerModesChanged = []) : Defers a c b := by
  have hnone : appliedBy a c = [] ∧ received [c] = [] := by
    cases c with
    | carRequest | controllerRequest | trySteal => exact ⟨rfl, rfl⟩
    | peerChangeModesStart | peerChangeModesEnd | peerModesChanged => cases hc
  refine ⟨?_, fun hbad => ?_, fun _ => hnone.1, fun hempty => ?_⟩
  · rw [hnone.1, hnone.2, hpending, List.append_nil]
    rfl
  · rw [hc] at hbad
    cases hbad
  · rw [hpending]
    exact hidle (hinflight ▸ hempty)

theorem defers_changed (a : ModesArbiter) (modes : ModesChanged)
    (hidle : a.inflightPeerChangeModes = [] → a.pendingPeerModesChanged = []) :
    Defers a (.peerModesChanged modes) (a.onPeerModesChanged modes) := by
  unfold onPeerModesChanged
  dsimp only
  cases hinflight : a.inflightPeerChangeModes with
  | nil =>
    have hmark : a.markDirty.inflightPeerChangeModes = [] := hinflight
    have happlied : appliedBy a (.peerModesChanged modes) =
        [(modes, a.acceptedPeerChangeModes.head?)] := by
      unfold appliedBy
      rw [hinflight]
      rfl
    have hempty : a.pendingPeerModesChanged = [] := hidle hinflight
    have hpending : (a.markDirty.applyWithAccepted modes).pendingPeerModesChanged = [] := hempty
    rw [hmark, if_pos List.isEmpty_nil]
    refine ⟨?_, fun _ => ?_, fun hbad => absurd hmark hbad, fun _ => hpending⟩
    · rw [happlied, hpending, hempty]
      rfl
    · rw [happlied]
      exact applyWithAccepted_modes a.markDirty modes
  | cons request inflight =>
    have hmark : a.markDirty.inflightPeerChangeModes = request :: inflight := hinflight
    have happlied : appliedBy a (.peerModesChanged modes) = [] := by
      unfold appliedBy
      rw [hinflight]
      rfl
    rw [hmark, if_neg (by simp)]
    refine ⟨?_, fun _ => ?_, fun _ => happlied, fun hbad => ?_⟩
    · rw [happlied]
      rfl
    · rw [happlied]
      rfl
    · exact absurd hbad (List.cons_ne_nil request inflight)

/-- The exchange in flight has ended. -/
theorem defers_drained (a : ModesArbiter) (resp : ChangeModesResponse) {request : ChangeModes}
    {inflight : List ChangeModes} (hinflight : a.inflightPeerChangeModes = request :: inflight)
    {b : ModesArbiter} (hb : b.inflightPeerChangeModes = inflight) (hmodes : b.modes = a.modes)
    (hpending : b.pendingPeerModesChanged = a.pendingPeerModesChanged)
    (haccepted : b.acceptedPeerChangeModes =
      if resp.status ≠ 0 then a.acceptedPeerChangeModes
      else a.acceptedPeerChangeModes ++ [request]) :
    Defers a (.peerChangeModesEnd resp) b.drainPendingPeerModesChangedIfIdle := by
  unfold drainPendingPeerModesChangedIfIdle
  cases inflight with
  | nil =>
    have happlied : appliedBy a (.peerChangeModesEnd resp) =
        pairUp a.pendingPeerModesChanged b.acceptedPeerChangeModes := by
      unfold appliedBy
      rw [hinflight, haccepted]
    obtain ⟨hstate, hempty, hsame⟩ := drainPending_spec b b.pendingPeerModesChanged
    rw [hb, if_pos List.isEmpty_nil]
    refine ⟨?_, fun _ => ?_, fun hbad => absurd (hsame.trans hb) hbad, fun _ => hempty⟩
    · rw [happlied, hempty, pairUp_fst]
      rfl
    · rw [happlied, hstate, hpending, hmodes]
  | cons next rest =>
    have happlied : appliedBy a (.peerChangeModesEnd resp) = [] := by
      unfold appliedBy
      rw [hinflight]
    rw [hb, if_neg (by simp)]
    refine ⟨?_, fun _ => ?_, fun _ => happlied, fun hbad => ?_⟩
    · rw [happlied, hpending]
      exact (List.append_nil _).symm
    · rw [happlied]
      exact hmodes
    · rw [hb] at hbad
      cases hbad

theorem defers_ended (a : ModesArbiter) (resp : ChangeModesResponse)
    (hidle : a.inflightPeerChangeModes = [] → a.pendingPeerModesChanged = []) :
    Defers a (.peerChangeModesEnd resp) (a.onPeerChangeModesEnd resp) := by
  unfold onPeerChangeModesEnd
  cases hinflight : a.inflightPeerChangeModes with
  | nil =>
    have happlied : appliedBy a (.peerChangeModesEnd resp) = [] := by
      unfold appliedBy
      rw [hinflight]
    dsimp only
    refine ⟨?_, fun _ => ?_, fun _ => happlied, fun _ => hidle hinflight⟩
    · rw [happlied]
      exact (List.append_nil _).symm
    · rw [happlied]
      rfl
  | cons request inflight =>
    dsimp only
    split
    · rename_i hrejected
      exact defers_drained a resp hinflight rfl rfl rfl (if_pos hrejected).symm
    · rename_i haccepted
      exact defers_drained a resp hinflight rfl rfl rfl (if_neg haccepted).symm

/-- **What a call does with the reports**, if none waits while nothing is in flight. -/
theorem defers_call (a : ModesArbiter) (c : Call)
    (hidle : a.inflightPeerChangeModes = [] → a.pendingPeerModesChanged = []) :
    Defers a c (a.call c) := by
  cases c with
  | carRequest request => exact .of_same rfl rfl rfl hidle
  | controllerRequest resource => exact .of_same rfl rfl rfl hidle
  | trySteal p =>
    have hsame : (a.trySteal p).pendingPeerModesChanged = a.pendingPeerModesChanged ∧
        (a.trySteal p).inflightPeerChangeModes = a.inflightPeerChangeModes := by
      unfold trySteal
      split
      · exact ⟨rfl, rfl⟩
      · split
        · dsimp only
          split <;> exact ⟨rfl, rfl⟩
        · exact ⟨rfl, rfl⟩
    exact .of_same rfl hsame.1 hsame.2 hidle
  | peerChangeModesStart modes =>
    refine ⟨?_, fun _ => rfl, fun _ => rfl, fun hbad => ?_⟩
    · exact (List.append_nil _).symm
    · cases List.append_eq_nil_iff.mp hbad |>.2
  | peerChangeModesEnd resp => exact defers_ended a resp hidle
  | peerModesChanged modes => exact defers_changed a modes hidle

/-! ## Runs -/

theorem received_append (calls calls' : List Call) :
    received (calls ++ calls') = received calls ++ received calls' := by
  induction calls with
  | nil => rfl
  | cons c calls ih => cases c <;> simp [received, ih]

/-- The applied and the waiting reports are those received, and none waits for nothing. -/
structure InOrder (reports : List ModesChanged) (x : Logged) : Prop where
  all : x.2.map Prod.fst ++ x.1.pendingPeerModesChanged = reports
  idle : x.1.inflightPeerChangeModes = [] → x.1.pendingPeerModesChanged = []

theorem InOrder.step {reports : List ModesChanged} {x y : Logged} {c : Call}
    (h : InOrder reports x) (hstep : loggedStep x c = some y) :
    InOrder (reports ++ received [c]) y ∧ y = (x.1.call c, x.2 ++ appliedBy x.1 c) := by
  obtain rfl : (x.1.call c, x.2 ++ appliedBy x.1 c) = y := Option.some.inj hstep
  have hdefers := defers_call x.1 c h.idle
  refine ⟨⟨?_, hdefers.idle⟩, rfl⟩
  show (x.2 ++ appliedBy x.1 c).map Prod.fst ++ (x.1.call c).pendingPeerModesChanged = _
  rw [List.map_append, List.append_assoc, hdefers.kept, ← List.append_assoc, h.all]

theorem InOrder.run {reports : List ModesChanged} {x y : Logged} {calls : List Call}
    (h : InOrder reports x) (hrun : run loggedStep x calls = some y) :
    InOrder (reports ++ received calls) y := by
  induction calls generalizing reports x with
  | nil =>
    obtain rfl := Option.some.inj hrun
    rwa [received, List.append_nil]
  | cons c calls ih =>
    obtain ⟨z, hz, hrest⟩ := run_cons_eq_some.mp hrun
    have hnext := ih (h.step hz).1 hrest
    rwa [List.append_assoc, ← received_append, List.singleton_append] at hnext

/-- **Every report once and in order.** Whatever the car, the phone and the proxy do: the reports
applied so far and those that wait are the reports received, none waits while nothing is in flight,
and in every further call of the phone's side the modes change by the reports that it applies and
by nothing else, and not at all while an exchange is in flight. -/
theorem reports_inOrder (infoModes : ChangeModes) (calls : List Call) :
    ∃ a log, run loggedStep (ModesArbiter.new infoModes, []) calls = some (a, log) ∧
      log.map Prod.fst ++ a.pendingPeerModesChanged = received calls ∧
      (a.inflightPeerChangeModes = [] → a.pendingPeerModesChanged = []) ∧
      ∀ c, ∃ applied, loggedStep (a, log) c = some (a.call c, log ++ applied) ∧
        (isPeerCall c = true → (a.call c).modes = applied.foldl applyReport a.modes) ∧
        ((a.call c).inflightPeerChangeModes ≠ [] → applied = []) := by
  have htotal : ∀ (x : Logged) (cs : List Call), ∃ y, run loggedStep x cs = some y := by
    intro x cs
    induction cs generalizing x with
    | nil => exact ⟨x, rfl⟩
    | cons c cs ih =>
      obtain ⟨y, hy⟩ := ih (x.1.call c, x.2 ++ appliedBy x.1 c)
      exact ⟨y, run_cons_eq_some.mpr ⟨_, rfl, hy⟩⟩
  obtain ⟨⟨a, log⟩, hrun⟩ := htotal (ModesArbiter.new infoModes, []) calls
  have hstart : InOrder [] (ModesArbiter.new infoModes, []) := ⟨rfl, fun _ => rfl⟩
  have horder := hstart.run hrun
  rw [List.nil_append] at horder
  refine ⟨a, log, hrun, horder.all, horder.idle, fun c => ?_⟩
  have hdefers := defers_call a c horder.idle
  exact ⟨appliedBy a c, rfl, hdefers.state, hdefers.inflight⟩

end Catplay.Analysis.Modes.Deferral
