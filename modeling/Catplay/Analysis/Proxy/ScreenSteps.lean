import Catplay.Analysis.Modes.Requests
import Catplay.Analysis.Proxy.Exchanges

/-!
# The car's screen and the modes

The tasks for the car's screen go through six stages (`Stage`), and each time the manager flushes the
modes the stage follows the arbiter. What the car will have been told last, when all tasks are done,
are the modes of the arbiter (`told`).
-/

set_option autoImplicit false

namespace Catplay.Analysis.Proxy

open Catplay.Model.Proxy Catplay.Model.Proxy.CarManager Catplay.Model.Modes
open Catplay.Library.Run

/-! ## The tasks -/

/-- The tasks that are not done, the one that runs first. -/
def remaining (m : CarManager) : List TxTask := m.txCurrent.toList ++ m.txQueue

/-- The modes that a task tells the car. -/
def tells : TxTask → Option AirPlayModeState
  | .assertModes modes | .screenSetup modes | .screenTeardown _ modes => some modes
  | _ => none

/-- What the car has been told when the tasks are done. -/
def told (m : CarManager) : List AirPlayModeState := m.car.asserted ++ (remaining m).filterMap tells

def isScreenTask : TxTask → Bool
  | .screenSetup _ | .screenTeardown _ _ => true
  | _ => false

def screenTasks (m : CarManager) : List TxTask := (remaining m).filter isScreenTask

/-- The screen is the controller's in these modes. -/
def GivesScreen (modes : AirPlayModeState) : Prop := modes.screen.entity = .controller

/-- **The stages of the car's screen**: the SETUP that is pending, whether the overlay has the
stream, the tasks for the screen, and how many streams the car has. A SETUP has modes that give the
screen to the controller, and a TEARDOWN has modes that do not. -/
inductive Stage : Option ScreenSetup → Bool → List TxTask → Nat → Prop
  | off : Stage none false [] 0
  | leaving {modes : AirPlayModeState} (h : ¬GivesScreen modes) :
      Stage none false [.screenTeardown true modes] 1
  | opening {modes : AirPlayModeState} (h : GivesScreen modes) :
      Stage (some .waiting) false [.screenSetup modes] 0
  | reopening {modes modes' : AirPlayModeState} (h : ¬GivesScreen modes) (h' : GivesScreen modes') :
      Stage (some .waiting) false [.screenTeardown true modes, .screenSetup modes'] 1
  | opened {setup : ScreenSetup} (h : setup ≠ .waiting) : Stage (some setup) false [] 1
  | on : Stage none true [] 1

namespace Stage

variable {setup : ScreenSetup} {pending : Option ScreenSetup} {peer screen : Bool}
  {tasks : List TxTask} {streams : Nat} {modes : AirPlayModeState}

theorem setup_queued (h : Stage none false tasks streams) (hmodes : GivesScreen modes) :
    Stage (some .waiting) false (tasks ++ [.screenSetup modes]) streams := by
  cases h with
  | off => exact .opening hmodes
  | leaving hleaving => exact .reopening hleaving hmodes

theorem teardown_queued (h : Stage none true tasks streams) (hmodes : ¬GivesScreen modes) :
    Stage none false (tasks ++ [.screenTeardown true modes]) streams := by
  cases h with
  | on => exact .leaving hmodes

theorem setup_done (h : Stage pending peer (.screenSetup modes :: tasks) streams) :
    Stage (some .sent) peer tasks (streams + 1) := by
  cases h with
  | opening hmodes => exact .opened (by decide)

theorem teardown_done (h : Stage pending peer (.screenTeardown screen modes :: tasks) streams) :
    screen = true ∧ Stage pending peer tasks (streams - 1) := by
  cases h with
  | leaving hmodes => exact ⟨rfl, .off⟩
  | reopening hmodes hmodes' => exact ⟨rfl, .opening hmodes'⟩

theorem polled (h : Stage (some .sent) peer tasks streams) :
    Stage (some .polled) peer tasks streams := by
  cases h with
  | opened _ => exact .opened (by decide)

theorem taken (h : Stage (some setup) peer tasks streams) (hsetup : setup ≠ .waiting) :
    Stage none true tasks streams := by
  cases h with
  | opening _ => exact absurd rfl hsetup
  | reopening _ _ => exact absurd rfl hsetup
  | opened _ => exact .on

end Stage

def AtStage (m : CarManager) : Prop :=
  Stage m.pendingScreenSetup m.hasCarPeer (screenTasks m) m.car.streams

/-- The modes as they are told. -/
def current (m : CarManager) : AirPlayModeState := m.modes.modes.serializeToState

/-- What the car is told last is what the arbiter has, unless it is still to be told. -/
def Follows (m : CarManager) : Prop :=
  m.modes.modesDirty = true ∨ (told m).getLast? = some (current m)

/-- What holds wherever in a round. -/
structure Steady (m : CarManager) : Prop where
  stage : AtStage m
  follows : Follows m

/-- The arbiter of `b` is that of `a`, as far as modes go, or is dirty. -/
def Marks (a b : ModesArbiter) : Prop :=
  b.modesDirty = true ∨ b.modes.serializeToState = a.modes.serializeToState ∧
    b.modesDirty = a.modesDirty

theorem Marks.refl (a : ModesArbiter) : Marks a a := .inr ⟨rfl, rfl⟩

/-! ## Operations that leave the screen alone -/

/-- `m'` has the tasks of `m` and some others behind them, none of which is about the screen or the
modes. -/
structure Extends (m m' : CarManager) : Prop where
  tasks : ∃ more, remaining m' = remaining m ++ more ∧
    ∀ task ∈ more, isScreenTask task = false ∧ tells task = none
  setup : m'.pendingScreenSetup = m.pendingScreenSetup
  peer : m'.hasCarPeer = m.hasCarPeer
  car : m'.car = m.car
  marks : Marks m.modes m'.modes

namespace Extends

variable {a b c : CarManager}

theorem of_same {m m' : CarManager} (htasks : remaining m' = remaining m)
    (hsetup : m'.pendingScreenSetup = m.pendingScreenSetup) (hpeer : m'.hasCarPeer = m.hasCarPeer)
    (hcar : m'.car = m.car) (hmarks : Marks m.modes m'.modes) : Extends m m' :=
  ⟨⟨[], by rw [htasks, List.append_nil], fun _ h => nomatch h⟩, hsetup, hpeer, hcar, hmarks⟩

theorem refl (m : CarManager) : Extends m m := of_same rfl rfl rfl rfl (.refl m.modes)

theorem trans (h : Extends a b) (h' : Extends b c) : Extends a c := by
  obtain ⟨more, hmore, hquiet⟩ := h.tasks
  obtain ⟨more', hmore', hquiet'⟩ := h'.tasks
  refine ⟨⟨more ++ more', ?_, ?_⟩, h'.setup.trans h.setup, h'.peer.trans h.peer,
    h'.car.trans h.car, ?_⟩
  · rw [hmore', hmore, List.append_assoc]
  · intro task htask
    rcases List.mem_append.mp htask with hin | hin
    · exact hquiet task hin
    · exact hquiet' task hin
  · rcases h'.marks with hdirty | ⟨hmodes, hflag⟩
    · exact .inl hdirty
    · rcases h.marks with hdirty | ⟨hmodes', hflag'⟩
      · exact .inl (hflag.trans hdirty)
      · exact .inr ⟨hmodes.trans hmodes', hflag.trans hflag'⟩

theorem push {task : TxTask} (m : CarManager)
    (h : isScreenTask task = false ∧ tells task = none) : Extends m (m.push task) := by
  refine ⟨⟨[task], ?_, ?_⟩, rfl, rfl, rfl, .refl m.modes⟩
  · exact (List.append_assoc m.txCurrent.toList m.txQueue [task]).symm
  · intro task' htask'
    rw [List.mem_singleton.mp htask']
    exact h

theorem screenTasks (h : Extends a b) : Proxy.screenTasks b = Proxy.screenTasks a := by
  obtain ⟨more, hmore, hquiet⟩ := h.tasks
  have hnone : more.filter isScreenTask = [] := by
    rw [List.filter_eq_nil_iff]
    intro task htask
    rw [(hquiet task htask).1]
    exact Bool.false_ne_true
  unfold Proxy.screenTasks
  rw [hmore, List.filter_append, hnone, List.append_nil]

theorem told (h : Extends a b) : Proxy.told b = Proxy.told a := by
  obtain ⟨more, hmore, hquiet⟩ := h.tasks
  have hnone : more.filterMap tells = [] := by
    rw [List.filterMap_eq_nil_iff]
    exact fun task htask => (hquiet task htask).2
  unfold Proxy.told
  rw [hmore, h.car, List.filterMap_append, hnone, List.append_nil]

/-- **Steady it stays.** -/
theorem steady (h : Extends a b) (ha : Steady a) : Steady b where
  stage := by
    have hstage := ha.stage
    unfold AtStage at hstage ⊢
    rw [h.setup, h.peer, h.screenTasks, h.car]
    exact hstage
  follows := by
    unfold Follows current
    rw [h.told]
    rcases h.marks with hdirty | ⟨hmodes, hflag⟩
    · exact .inl hdirty
    · rw [hmodes, hflag]
      exact ha.follows

end Extends

section Arbiter

variable (arbiter : ModesArbiter)

theorem marks_drain : Marks arbiter arbiter.drainPendingPeerModesChangedIfIdle := by
  have hdrain : ∀ (reports : List ModesChanged) (a : ModesArbiter),
      Marks a (a.drainPending reports) := by
    intro reports
    induction reports with
    | nil => exact fun a => .inr ⟨rfl, rfl⟩
    | cons report reports ih =>
      intro a
      rcases ih (a.applyWithAccepted report) with hdirty | ⟨-, hflag⟩
      · exact .inl hdirty
      · exact .inl hflag
  unfold ModesArbiter.drainPendingPeerModesChangedIfIdle
  split
  · exact hdrain _ arbiter
  · exact .refl arbiter

theorem marks_onPeerChangeModesEnd (resp : ChangeModesResponse) :
    Marks arbiter (arbiter.onPeerChangeModesEnd resp) := by
  unfold ModesArbiter.onPeerChangeModesEnd
  split
  · exact .refl arbiter
  · rename_i request inflight _
    dsimp only
    split
    · exact marks_drain { arbiter with inflightPeerChangeModes := inflight }
    · exact marks_drain { arbiter with
        inflightPeerChangeModes := inflight
        acceptedPeerChangeModes := arbiter.acceptedPeerChangeModes ++ [request] }

theorem marks_onPeerModesChanged (report : ModesChanged) :
    Marks arbiter (arbiter.onPeerModesChanged report) := by
  unfold ModesArbiter.onPeerModesChanged
  dsimp only
  split
  · exact .inl rfl
  · exact .inl rfl

theorem marks_trySteal (p : ResourceTransferPriority) : Marks arbiter (arbiter.trySteal p) := by
  unfold ModesArbiter.trySteal
  split
  · exact .refl arbiter
  · split
    · rcases Modes.Requests.takeBy_cases arbiter.modes.screen (.take .mainScreen p .anytime .anytime) true with
        hrejected | ⟨_, _, _, _, haccepted, _⟩
      · rw [hrejected]
        exact .inr ⟨rfl, rfl⟩
      · rw [haccepted]
        exact .inl rfl
    · exact .refl arbiter

end Arbiter

section Operations

variable (plists : Plists) (answers : Answers) (self : CarManager)

/-- Only the arbiter and what is not about the car changes. -/
theorem extends_modes {m m' : CarManager} (hcurrent : m'.txCurrent = m.txCurrent)
    (hqueue : m'.txQueue = m.txQueue) (hsetup : m'.pendingScreenSetup = m.pendingScreenSetup)
    (hpeer : m'.hasCarPeer = m.hasCarPeer) (hcar : m'.car = m.car)
    (hmarks : Marks m.modes m'.modes) : Extends m m' :=
  .of_same (by unfold remaining; rw [hcurrent, hqueue]) hsetup hpeer hcar hmarks

theorem extends_takeRecord : Extends self self.takeRecord := by
  unfold takeRecord
  split
  · exact .refl self
  · have hmarked : Extends self { self with carHadRecord := true } :=
      extends_modes rfl rfl rfl rfl rfl (.refl self.modes)
    exact hmarked.trans (.push { self with carHadRecord := true } ⟨rfl, rfl⟩)

theorem extends_takeProxied : Extends self (self.takeProxied plists) := by
  unfold takeProxied
  split
  · exact .refl self
  · split
    · exact .refl self
    · dsimp only
      split
      · exact extends_modes rfl rfl rfl rfl rfl (.refl self.modes)
      · split
        · exact extends_modes rfl rfl rfl rfl rfl (marks_onPeerChangeModesEnd self.modes _)
        · exact extends_modes rfl rfl rfl rfl rfl (.refl self.modes)

theorem extends_altTeardown (returned : Bool) :
    Extends self (if returned then self.push .altScreenTeardown else self) := by
  split
  · exact .push self ⟨rfl, rfl⟩
  · exact .refl self

theorem extends_onPeerDisconnect : Extends self (self.onPeerDisconnect answers) := by
  unfold onPeerDisconnect
  split
  · exact extends_altTeardown self answers.altReplaced
  · dsimp only
    refine Extends.trans ?_ (extends_altTeardown _ answers.altReplaced)
    split
    · exact extends_modes rfl rfl rfl rfl rfl (.inl rfl)
    · exact extends_modes rfl rfl rfl rfl rfl (.inl rfl)

theorem extends_dispatchTxOp (op : TxAdapterOp) : Extends self (self.dispatchTxOp answers op) := by
  cases op with
  | iphoneConnected => exact extends_modes rfl rfl rfl rfl rfl (.refl self.modes)
  | iphoneDisconnected => exact extends_onPeerDisconnect answers self
  | screenChannel => exact .refl self
  | altScreenChannel =>
    exact (extends_altTeardown self answers.altReplaced).trans
      (.push (if answers.altReplaced then self.push .altScreenTeardown else self) ⟨rfl, rfl⟩)
  | negotiateFeatures => exact .refl self
  | modes modes =>
    exact extends_modes rfl rfl rfl rfl rfl (marks_onPeerModesChanged self.modes modes.serialize)
  | command command =>
    show Extends self (self.onIphoneCommand command)
    unfold onIphoneCommand
    split
    · exact .push self ⟨rfl, rfl⟩
    · exact .refl self
  | patchInfo => exact .refl self
  | setupAudio => exact .push self ⟨rfl, rfl⟩

theorem extends_onCarCommandConnected (peer : IphonePeer) (cmd : CommandPending) :
    Extends self (self.onCarCommandConnected answers peer cmd) := by
  unfold onCarCommandConnected
  split
  · exact extends_modes rfl rfl rfl rfl rfl (.refl self.modes)
  · obtain ⟨command, _⟩ := cmd
    cases command <;> exact extends_modes rfl rfl rfl rfl rfl (.inr ⟨rfl, rfl⟩)

theorem extends_onCarCommandUnconnected (cmd : CommandPending) :
    Extends self (self.onCarCommandUnconnected plists cmd) := by
  unfold onCarCommandUnconnected
  split
  · exact extends_modes rfl rfl rfl rfl rfl (.inl rfl)
  · exact extends_modes rfl rfl rfl rfl rfl (.refl self.modes)
  · exact extends_modes rfl rfl rfl rfl rfl (.inl rfl)
  · exact extends_modes rfl rfl rfl rfl rfl (.refl self.modes)

theorem extends_takeOp : Extends self (self.takeOp answers) := by
  unfold takeOp
  split
  · exact .refl self
  · rename_i op _
    have htaken : Extends self { self with proxyRx := none } :=
      extends_modes rfl rfl rfl rfl rfl (.refl self.modes)
    exact htaken.trans (extends_dispatchTxOp answers { self with proxyRx := none } op)

theorem extends_takeCommand : Extends self (self.takeCommand plists answers) := by
  unfold takeCommand
  split
  · exact .refl self
  · rename_i cmd _
    have htaken : Extends self { self with cmdNext := none } :=
      extends_modes rfl rfl rfl rfl rfl (.refl self.modes)
    refine htaken.trans ?_
    unfold dispatchCarCommand
    split
    · exact extends_onCarCommandConnected answers { self with cmdNext := none } _ cmd
    · exact extends_onCarCommandUnconnected plists { self with cmdNext := none } cmd

theorem extends_initialSteal : Extends self self.initialSteal := by
  unfold initialSteal
  split
  · exact extends_modes rfl rfl rfl rfl rfl (marks_trySteal self.modes .niceToHave)
  · exact .refl self

end Operations

/-! ## The screen's own steps -/

/-- **The stream of a SETUP is taken.** -/
theorem steady_takeScreen {m : CarManager} (h : Steady m) : Steady m.takeScreen := by
  unfold takeScreen
  split
  · rename_i hpolled
    have hstage := h.stage
    unfold AtStage at hstage
    rw [hpolled] at hstage
    exact ⟨hstage.taken (by decide), h.follows⟩
  · exact h

theorem steady_dispatch {plists : Plists} {answers : Answers} {m : CarManager} (h : Steady m) :
    Steady (dispatch plists answers m) :=
  (extends_takeCommand plists answers _).steady
    ((extends_takeOp answers _).steady
      ((extends_takeProxied plists _).steady
        (steady_takeScreen ((extends_takeRecord m).steady h))))

/-- What holds behind a flush. -/
structure Flushed (m : CarManager) : Prop where
  stage : AtStage m
  clean : m.modes.modesDirty = false
  told : (told m).getLast? = some (current m)
  /-- The overlay has the stream as the arbiter has the screen, unless a SETUP is pending. -/
  follows : m.pendingScreenSetup = none → m.hasCarPeer = m.hasScreen

theorem Flushed.steady {m : CarManager} (h : Flushed m) : Steady m := ⟨h.stage, .inr h.told⟩

/-- One task more. -/
theorem screenTasks_push (m : CarManager) (task : TxTask) :
    screenTasks (m.push task) = screenTasks m ++ if isScreenTask task then [task] else [] := by
  have hremaining : remaining (m.push task) = remaining m ++ [task] :=
    (List.append_assoc m.txCurrent.toList m.txQueue [task]).symm
  unfold screenTasks
  rw [hremaining, List.filter_append]
  cases htask : isScreenTask task with
  | true => simp [htask]
  | false => simp [htask]

theorem told_push (m : CarManager) {task : TxTask} {modes : AirPlayModeState}
    (h : tells task = some modes) : (told (m.push task)).getLast? = some modes := by
  have hremaining : remaining (m.push task) = remaining m ++ [task] :=
    (List.append_assoc m.txCurrent.toList m.txQueue [task]).symm
  have hlast : [task].filterMap tells = [modes] := List.filterMap_cons_some h
  unfold told
  rw [hremaining, List.filterMap_append, hlast, ← List.append_assoc, List.getLast?_concat]

/-- **The modes are told** if they are dirty. -/
theorem flushDirty_spec {m : CarManager} (h : Steady m) :
    AtStage m.flushDirty ∧ m.flushDirty.modes.modesDirty = false ∧
      (told m.flushDirty).getLast? = some (current m.flushDirty) := by
  unfold flushDirty
  split
  · rename_i hdirty
    refine ⟨?_, rfl, told_push _ rfl⟩
    have hstage := h.stage
    unfold AtStage at hstage ⊢
    rw [screenTasks_push]
    exact (List.append_nil (screenTasks m)).symm ▸ hstage
  · rename_i hclean
    have hflag : m.modes.modesDirty = false := eq_false_of_ne_true hclean
    refine ⟨h.stage, hflag, h.follows.resolve_left ?_⟩
    rw [hflag]
    exact Bool.false_ne_true

/-- The modes of the arbiter give the screen to the controller where it has it. -/
theorem givesScreen_current (m : CarManager) : GivesScreen (current m) ↔ m.hasScreen = true := by
  unfold GivesScreen hasScreen
  rw [decide_eq_true_iff]
  rfl

theorem hasScreen_flushDirty (m : CarManager) :
    m.flushDirty.hasScreen = m.hasScreen ∧ current m.flushDirty = current m := by
  unfold flushDirty
  split
  · exact ⟨rfl, rfl⟩
  · exact ⟨rfl, rfl⟩

/-- What a flush queues: the SETUP if the controller has the screen, else the TEARDOWN. -/
inductive Queued (m : CarManager) : List TxTask → Prop
  | nothing : Queued m []
  | setup (h : m.hasScreen = true) : Queued m [.screenSetup (current m)]
  | teardown (h : m.hasScreen = false) : Queued m [.screenTeardown true (current m)]

theorem flushScreen_queued (m : CarManager) :
    ∃ tasks, Queued m tasks ∧ m.flushScreen.txQueue = m.txQueue ++ tasks := by
  unfold flushScreen
  dsimp only
  split
  · rename_i hsetup
    exact ⟨_, .setup hsetup.1, rfl⟩
  · split
    · rename_i hteardown
      have hqueue : Queued m [.screenTeardown m.hasCarPeer m.modes.modes.serializeToState] := by
        rw [hteardown.2.1]
        exact .teardown (eq_false_of_ne_true hteardown.1)
      exact ⟨_, hqueue, rfl⟩
    · exact ⟨[], .nothing, (List.append_nil m.txQueue).symm⟩

theorem flushScreen_flushed {m : CarManager} (hstage : AtStage m)
    (hclean : m.modes.modesDirty = false) (htold : (told m).getLast? = some (current m)) :
    Flushed m.flushScreen := by
  unfold flushScreen
  dsimp only
  split
  · rename_i hsetup
    obtain ⟨hscreen, hpeer, hpending⟩ := hsetup
    rw [Option.isNone_iff_eq_none] at hpending
    unfold AtStage at hstage
    rw [hpending, eq_false_of_ne_true hpeer] at hstage
    refine ⟨?_, hclean, told_push _ rfl, fun hnone => nomatch hnone⟩
    unfold AtStage
    rw [screenTasks_push]
    show Stage (some .waiting) m.hasCarPeer _ _
    rw [eq_false_of_ne_true hpeer]
    exact hstage.setup_queued ((givesScreen_current m).mpr hscreen)
  · rename_i hsetup
    split
    · rename_i hteardown
      obtain ⟨hscreen, hpeer, hpending⟩ := hteardown
      rw [Option.isNone_iff_eq_none] at hpending
      unfold AtStage at hstage
      rw [hpending, hpeer] at hstage
      refine ⟨?_, hclean, told_push _ rfl, fun _ => (eq_false_of_ne_true hscreen).symm⟩
      unfold AtStage
      rw [screenTasks_push]
      show Stage m.pendingScreenSetup false (_ ++ [.screenTeardown m.hasCarPeer _]) _
      rw [hpending, hpeer]
      exact hstage.teardown_queued fun hgives => hscreen ((givesScreen_current m).mp hgives)
    · rename_i hteardown
      refine ⟨hstage, hclean, htold, fun hpending => ?_⟩
      rw [hpending] at hsetup hteardown
      cases hscreen : m.hasScreen with
      | true => simpa [hscreen] using hsetup
      | false => simpa [hscreen] using hteardown

/-- **A flush.** -/
theorem flushModes_flushed {m : CarManager} (h : Steady m) : Flushed m.flushModes := by
  obtain ⟨hstage, hclean, htold⟩ := flushDirty_spec h
  exact flushScreen_flushed hstage hclean htold

/-- **Behind a reconcile.** -/
theorem settle_flushed {answers : Answers} {m : CarManager} (h : Steady m) :
    Flushed (settle answers m) := by
  have hsteal := (extends_initialSteal m.flushModes).steady (flushModes_flushed h).steady
  have hflushed := flushModes_flushed hsteal
  unfold settle
  dsimp only
  generalize m.flushModes.initialSteal.flushModes = last at hflushed
  split
  · have hsame : Extends last (last.push .altScreenTeardown) := .push last ⟨rfl, rfl⟩
    refine ⟨(hsame.steady hflushed.steady).stage, hflushed.clean, ?_, hflushed.follows⟩
    rw [hsame.told]
    exact hflushed.told
  · exact hflushed

/-! ## The tasks are done -/

theorem remaining_startTask (m : CarManager) : remaining m.startTask = remaining m := by
  unfold startTask
  split
  · rename_i hcurrent hqueue
    unfold remaining
    rw [hcurrent, hqueue]
    rfl
  · rfl

theorem extends_startTask (m : CarManager) : Extends m m.startTask := by
  have hremaining := remaining_startTask m
  unfold startTask at hremaining ⊢
  split
  · rename_i hcurrent hqueue
    rw [hcurrent, hqueue] at hremaining
    exact .of_same hremaining rfl rfl rfl (.refl m.modes)
  · exact .refl m

/-- The car has been told what a task tells. -/
theorem asserted_run (car : Car) (task : TxTask) :
    (task.run car).asserted = car.asserted ++ (tells task).toList := by
  cases task <;> first | rfl | exact (List.append_nil car.asserted).symm

/-- **A task is done.** -/
theorem steady_endTask {m : CarManager} {task : TxTask} (h : Steady m)
    (hcurrent : m.txCurrent = some task) : Steady (m.endTask task) := by
  have hremaining : remaining m = task :: m.txQueue := by
    unfold remaining
    rw [hcurrent]
    rfl
  have htold : told (m.endTask task) = told m := by
    unfold told
    rw [hremaining]
    show (task.run m.car).asserted ++ m.txQueue.filterMap tells = _
    rw [asserted_run, List.append_assoc]
    cases htells : tells task with
    | none => rw [List.filterMap_cons_none htells]; rfl
    | some modes => rw [List.filterMap_cons_some htells]; rfl
  refine ⟨?_, ?_⟩
  · have hstage := h.stage
    unfold AtStage screenTasks at hstage ⊢
    rw [hremaining] at hstage
    show Stage _ m.hasCarPeer (m.txQueue.filter isScreenTask) (task.run m.car).streams
    cases task with
    | screenSetup modes => exact hstage.setup_done
    | screenTeardown screen modes =>
      obtain ⟨rfl, hdone⟩ := hstage.teardown_done
      exact hdone
    | _ => exact hstage
  · have hfollows := h.follows
    unfold Follows at hfollows ⊢
    rw [htold]
    exact hfollows

/-- **A slot is filled**, unless a task has failed. -/
theorem steady_fill {m m' : CarManager} {wake : Wake} (h : Steady m)
    (hfill : m.fill wake = some m') (halive : m'.txFailed = false) : Steady m' := by
  cases wake with
  | screens =>
    obtain rfl := Option.some.inj hfill
    exact h
  | proxyOp op =>
    obtain rfl := Option.some.inj hfill
    exact ⟨h.stage, h.follows⟩
  | screenSetup =>
    unfold fill at hfill
    dsimp only at hfill
    split at hfill
    · rename_i hsent
      obtain rfl := Option.some.inj hfill
      have hstage := h.stage
      unfold AtStage at hstage
      rw [hsent] at hstage
      exact ⟨hstage.polled, h.follows⟩
    · cases hfill
  | command command =>
    obtain rfl := Option.some.inj hfill
    exact ⟨h.stage, h.follows⟩
  | txClosed =>
    obtain rfl := Option.some.inj hfill
    exact ⟨h.stage, h.follows⟩
  | proxied outcome =>
    unfold fill at hfill
    dsimp only at hfill
    split at hfill
    · obtain rfl := Option.some.inj hfill
      exact ⟨h.stage, h.follows⟩
    · cases hfill
  | taskDone =>
    obtain ⟨task, hcurrent, rfl⟩ := Option.map_eq_some_iff.mp hfill
    exact steady_endTask h hcurrent
  | taskFailed =>
    obtain ⟨_, _, rfl⟩ := Option.map_eq_some_iff.mp hfill
    cases halive

/-- The manager goes on only if no task has failed. -/
theorem txFailed_of_ok {plists : Plists} {answers : Answers} {m m' : CarManager}
    (h : m.reconcile plists answers = .ok m') : m.txFailed = false := by
  have hrecord : m.takeRecord.txFailed = m.txFailed := by
    unfold takeRecord
    split
    · rfl
    · rfl
  unfold reconcile at h
  dsimp only at h
  rw [hrecord] at h
  cases hfailed : m.txFailed with
  | false => rfl
  | true =>
    rw [hfailed] at h
    split at h
    · cases h
    · split at h
      · cases h
      · cases h

/-! ## The rounds -/

section Rounds

variable (plists : Plists) (infoModes : ChangeModes) (nightMode : Bool) (first : Answers)

/-- The manager as it reconciles: at first, and when a sleep has ended. -/
inductive Woken : CarManager → Prop
  | start : Woken (new infoModes nightMode)
  | slept {events : List (Wake × Answers)} {wake : Wake} {m m' : CarManager}
      (hrun : worker plists infoModes nightMode first events = some m)
      (hwake : m.startTask.fill wake = some m') : Woken m'

variable {plists infoModes nightMode first}

theorem steady_new : Steady (new infoModes nightMode) := ⟨.off, .inl rfl⟩

theorem reconcile_flushed {answers : Answers} {m m' : CarManager} (h : Steady m)
    (hreconcile : m.reconcile plists answers = .ok m') : Flushed m' := by
  rw [reconcile_ok hreconcile]
  exact settle_flushed (steady_dispatch h)

theorem steady_wake {m m' : CarManager} {wake : Wake} (h : Flushed m)
    (hwake : m.startTask.fill wake = some m') (halive : m'.txFailed = false) : Steady m' :=
  steady_fill ((extends_startTask m).steady h.steady) hwake halive

/-- **A round.** -/
theorem round_flushed {m m' : CarManager} {event : Wake × Answers} (h : Flushed m)
    (hround : m.round plists event = some m') : Flushed m' := by
  obtain ⟨filled, hfilled, hreconcile⟩ := Option.bind_eq_some_iff.mp hround
  cases hresult : filled.reconcile plists event.2 with
  | error e =>
    rw [hresult] at hreconcile
    cases hreconcile
  | ok result =>
    rw [hresult] at hreconcile
    obtain rfl := Option.some.inj hreconcile
    exact reconcile_flushed (steady_wake h hfilled (txFailed_of_ok hresult)) hresult

/-- **Every run.** -/
theorem worker_flushed {events : List (Wake × Answers)} {m : CarManager}
    (h : worker plists infoModes nightMode first events = some m) : Flushed m := by
  obtain ⟨s, hstart, hrun⟩ := Option.bind_eq_some_iff.mp h
  cases hresult : (new infoModes nightMode).reconcile plists first with
  | error e =>
    rw [hresult] at hstart
    cases hstart
  | ok result =>
    rw [hresult] at hstart
    obtain rfl := Option.some.inj hstart
    exact run_invariant Flushed (fun _ _ _ hm hround => round_flushed hm hround)
      (reconcile_flushed steady_new hresult) hrun

theorem Woken.steady {answers : Answers} {m m' : CarManager}
    (h : Woken plists infoModes nightMode first m)
    (hreconcile : m.reconcile plists answers = .ok m') : Steady m := by
  cases h with
  | start => exact steady_new
  | slept hrun hwake => exact steady_wake (worker_flushed hrun) hwake (txFailed_of_ok hreconcile)

end Rounds

/-! ## What a reconcile queues -/

theorem screenTasks_flushModes (m : CarManager) :
    ∃ tasks, Queued m tasks ∧ screenTasks m.flushModes = screenTasks m ++ tasks := by
  have hdirty : screenTasks m.flushDirty = screenTasks m := by
    unfold flushDirty
    split
    · rw [screenTasks_push]
      exact List.append_nil (screenTasks m)
    · rfl
  obtain ⟨hscreen, hcurrent⟩ := hasScreen_flushDirty m
  obtain ⟨tasks, hqueued, hqueue⟩ := flushScreen_queued m.flushDirty
  have hsame : m.flushDirty.flushScreen.txCurrent = m.flushDirty.txCurrent := by
    unfold flushScreen
    dsimp only
    split
    · rfl
    · split
      · rfl
      · rfl
  have hall : ∀ task ∈ tasks, isScreenTask task = true := by
    cases hqueued with
    | nothing => exact fun _ h => nomatch h
    | setup _ => exact fun _ h => List.mem_singleton.mp h ▸ rfl
    | teardown _ => exact fun _ h => List.mem_singleton.mp h ▸ rfl
  refine ⟨tasks, ?_, ?_⟩
  · cases hqueued with
    | nothing => exact .nothing
    | setup h => exact hcurrent ▸ .setup (hscreen.symm.trans h)
    | teardown h => exact hcurrent ▸ .teardown (hscreen.symm.trans h)
  · rw [← hdirty]
    unfold screenTasks remaining flushModes
    rw [hqueue, hsame, ← List.append_assoc, List.filter_append,
      List.filter_eq_self.mpr hall]

theorem screenTasks_takeScreen (m : CarManager) : screenTasks m.takeScreen = screenTasks m := by
  unfold takeScreen
  split
  · rfl
  · rfl

theorem screenTasks_dispatch (plists : Plists) (answers : Answers) (m : CarManager) :
    screenTasks (dispatch plists answers m) = screenTasks m := by
  unfold dispatch
  rw [(extends_takeCommand plists answers _).screenTasks, (extends_takeOp answers _).screenTasks,
    (extends_takeProxied plists _).screenTasks, screenTasks_takeScreen,
    (extends_takeRecord m).screenTasks]

/-! ## The screen and the modes in step -/

/-- The SETUPs whose stream has not been taken. -/
def outstanding (m : CarManager) : Nat :=
  (remaining m).countP (fun task => task matches .screenSetup _) +
    if m.pendingScreenSetup = some .sent ∨ m.pendingScreenSetup = some .polled then 1 else 0

/-- **In step.** -/
structure InStep (m : CarManager) : Prop where
  outstanding : outstanding m ≤ 1
  streams : m.car.streams ≤ 1
  /-- The car has the stream exactly if the controller has the screen. -/
  screen : remaining m = [] → m.pendingScreenSetup = none →
    m.car.streams = (if m.hasScreen then 1 else 0) ∧ m.hasCarPeer = m.hasScreen
  /-- The last modes the car was told are the arbiter's. -/
  modes : remaining m = [] → m.car.asserted.getLast? = some (current m)

theorem countP_setups (tasks : List TxTask) :
    tasks.countP (fun task => task matches .screenSetup _) =
      (tasks.filter isScreenTask).countP (fun task => task matches .screenSetup _) := by
  rw [List.countP_filter]
  congr 1
  funext task
  cases task <;> rfl

/-- One SETUP at most, one stream at most. -/
theorem Stage.bounds {pending : Option ScreenSetup} {peer : Bool} {tasks : List TxTask}
    {streams : Nat} (h : Stage pending peer tasks streams) :
    tasks.countP (fun task => task matches .screenSetup _) +
        (if pending = some .sent ∨ pending = some .polled then 1 else 0) ≤ 1 ∧ streams ≤ 1 := by
  cases h with
  | off => exact ⟨Nat.zero_le 1, Nat.zero_le 1⟩
  | leaving _ => exact ⟨Nat.zero_le 1, Nat.le_refl 1⟩
  | opening _ => exact ⟨Nat.le_refl 1, Nat.zero_le 1⟩
  | reopening _ _ => exact ⟨Nat.le_refl 1, Nat.le_refl 1⟩
  | opened _ =>
    refine ⟨?_, Nat.le_refl 1⟩
    split
    · exact Nat.le_refl 1
    · exact Nat.zero_le 1
  | on => exact ⟨Nat.zero_le 1, Nat.le_refl 1⟩

theorem Flushed.inStep {m : CarManager} (h : Flushed m) : InStep m := by
  have hstage := h.stage
  have hscreen := h.follows
  unfold AtStage at hstage
  refine ⟨?_, hstage.bounds.2, ?_, ?_⟩
  · unfold Proxy.outstanding
    rw [countP_setups]
    exact hstage.bounds.1
  · intro hdone hpending
    have htasks : screenTasks m = [] := by
      unfold screenTasks
      rw [hdone]
      rfl
    rw [htasks, hpending] at hstage
    rw [← hscreen hpending]
    generalize m.car.streams = streams at hstage
    generalize m.hasCarPeer = peer at hstage
    cases hstage with
    | off => exact ⟨rfl, rfl⟩
    | on => exact ⟨rfl, rfl⟩
  · intro hdone
    have htold := h.told
    unfold Proxy.told at htold
    rw [hdone] at htold
    exact (List.append_nil m.car.asserted) ▸ htold

/-- **The screen and the modes stay in step**: behind either flush of every reconcile; and a flush
queues a SETUP only if the controller has the screen, and a TEARDOWN only if it does not. -/
theorem reconcile_inStep {plists : Plists} {infoModes : ChangeModes} {nightMode : Bool}
    {first answers : Answers} {m m' : CarManager}
    (hwoken : Woken plists infoModes nightMode first m)
    (hreconcile : m.reconcile plists answers = .ok m') :
    InStep (dispatch plists answers m).flushModes ∧ InStep m' ∧
      ∃ tasks tasks', Queued (dispatch plists answers m) tasks ∧
        Queued (dispatch plists answers m).flushModes.initialSteal tasks' ∧
        screenTasks m' = screenTasks m ++ tasks ++ tasks' := by
  have hsteady := hwoken.steady hreconcile
  refine ⟨(flushModes_flushed (steady_dispatch hsteady)).inStep,
    (reconcile_flushed hsteady hreconcile).inStep, ?_⟩
  obtain ⟨tasks, hqueued, htasks⟩ := screenTasks_flushModes (dispatch plists answers m)
  obtain ⟨tasks', hqueued', htasks'⟩ :=
    screenTasks_flushModes (dispatch plists answers m).flushModes.initialSteal
  refine ⟨tasks, tasks', hqueued, hqueued', ?_⟩
  rw [reconcile_ok hreconcile]
  unfold settle
  dsimp only
  rw [(extends_altTeardown _ answers.altReconciled).screenTasks, htasks',
    (extends_initialSteal _).screenTasks, htasks, screenTasks_dispatch]

/-- The car has the screen in these modes. -/
def screenTaken : AirPlayModeState :=
  ⟨.accessoryHas, .controllerHas, .none, ⟨.none, .none⟩, .none⟩

/-- A stream is set up and taken, a phone comes and the car has the screen: there is a TEARDOWN. -/
def oneStream : List (Wake × Answers) :=
  [(.taskDone, calm), (.taskDone, calm), (.taskDone, calm), (.screenSetup, calm),
    (.proxyOp .iphoneConnected, calm), (.proxyOp (.modes screenTaken), calm), (.taskDone, calm)]

/-- **The TEARDOWN is done.** -/
theorem reconcile_inStep_oneStream :
    ∃ m filled m', worker onePlist noModes false calm oneStream = some m ∧ m.car.streams = 1 ∧
      m.startTask.fill .taskDone = some filled ∧ filled.reconcile onePlist calm = .ok m' ∧
      m'.car.streams = 0 ∧ InStep m' := by
  have hrun : (worker onePlist noModes false calm oneStream).any (fun m =>
      decide (m.car.streams = 1) && (m.startTask.fill .taskDone).any fun filled =>
        (filled.reconcile onePlist calm).toOption.any fun m' =>
          decide (m'.car.streams = 0)) = true := by
    decide
  obtain ⟨m, hm, hrest⟩ := (Option.any_eq_true _ _).mp hrun
  rw [Bool.and_eq_true, decide_eq_true_eq] at hrest
  obtain ⟨hone, hlast⟩ := hrest
  obtain ⟨filled, hfilled, hresult⟩ := (Option.any_eq_true _ _).mp hlast
  cases hreconcile : filled.reconcile onePlist calm with
  | error e =>
    rw [hreconcile] at hresult
    cases hresult
  | ok m' =>
    rw [hreconcile] at hresult
    have hin := (reconcile_inStep (.slept hm hfilled) hreconcile).2.1
    exact ⟨m, filled, m', hm, hone, hfilled, hreconcile, of_decide_eq_true hresult, hin⟩

end Catplay.Analysis.Proxy
