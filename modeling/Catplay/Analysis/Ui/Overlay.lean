import Catplay.Model.Ui.UiRenderer

/-!
# Frames of the state that was asked for

`last_state` stands for what is on the framebuffer. It is also set where a frame comes out of the
cache and nothing is drawn, and kept where drawing fails midway; a later frame is then encoded from a
framebuffer of another state, and stored. `Tracked` remembers whether `last_state` was drawn. In
every run that encodes no frame of a state it takes for drawn and that was not, all frames and
all entries are of the state asked for (`frames_show_state`).
-/

set_option autoImplicit false

namespace Catplay.Analysis.Ui

open Catplay.Library Catplay.Model.Ui Catplay.Model.Ui.UiRenderer

variable {E : Type} {env : Env E}

/-! ## What a frame shows -/

/-- The operations of a state were the last thing that was executed, and completely. -/
def Shows (fb : Framebuffer) (state : UiState) : Prop :=
  ∃ before failAt, Framebuffer.execute before failAt state.asOps = (true, fb)

/-- A frame and its headers that an encoder makes of a framebuffer. -/
def EncodingOf (env : Env E) (fb : Framebuffer) (data spsPps : Bytes) : Prop :=
  ∃ e, (env.updateRgba e fb).2 = some data ∧ env.getHeaders (env.updateRgba e fb).1 = some spsPps

/-- The frame is of a framebuffer that shows the state. -/
def FromDrawn (env : Env E) (state : UiState) (data spsPps : Bytes) : Prop :=
  ∃ fb, Shows fb state ∧ EncodingOf env fb data spsPps

/-- **The cache file** has an entry of the state whose key it is under. -/
def FileRight (env : Env E) (file : Option (KeyframeCacheKey × KeyframeCacheEntry)) : Prop :=
  ∀ key entry, file = some (key, entry) → ∃ (ui : UiRenderer E) (state : UiState),
    state.cacheFileName.isSome = true ∧ key = ui.keyframeCacheKey env state ∧
      FromDrawn env state entry.keyframe entry.spsPps

/-- There is one state with a cache file. -/
theorem eq_of_cacheFileName {state state' : UiState} (h : state.cacheFileName.isSome = true)
    (h' : state'.cacheFileName.isSome = true) : state = state' := by
  cases state with
  | waitingForConnection =>
    cases state' with
    | waitingForConnection => rfl
    | _ => cases h'
  | _ => cases h

/-- The state of the frame that a call asks for. -/
def requested (ui : UiRenderer E) : Call → Option UiState
  | .renderAndEncodeFrame state _ => some state
  | .encodeFrame => some ui.lastState
  | _ => none

/-! ## Whether the last state was drawn -/

/-- A renderer, and whether `last_state` is what was drawn. -/
structure Tracked (E : Type) where
  ui : UiRenderer E
  drawn : Bool

/-- Whether it is after `render_framebuffer`: a drawing that fails before it changes the
framebuffer leaves what was there. -/
def Tracked.rendered (t : Tracked E) (out : Outcome) (state : UiState) (reset : Bool) : Bool :=
  if state = .hidden ∨ (reset = false ∧ t.ui.lastState = state) then t.drawn
  else
    let (ok, _) := t.ui.renderFramebuffer out state reset
    let (_, next) := t.ui.renderFramebuffer out state reset
    match ok with
    | .ok () => true
    | .error _ => t.drawn && next.fb = t.ui.fb

/-- A frame out of the cache makes its state the last one, and draws nothing. -/
def Tracked.after (env : Env E) (t : Tracked E) (out : Outcome) : Call → Bool
  | .update state => t.rendered out state false
  | .renderAndEncodeFrame state reset =>
    if (if reset then none else t.ui.tryLoadKeyframeCache env out state).isSome then
      t.drawn && t.ui.lastState = state
    else t.rendered out state reset
  | .encodeFrame => t.drawn
  | .new .. => true
  | .loseFile => t.drawn

def step (env : Env E) (t : Tracked E) (input : Outcome × Call) : Option (Tracked E) :=
  some { ui := (t.ui.call env input.1 input.2).2, drawn := t.after env input.1 input.2 }

/-- A frame of a state is encoded without drawing. -/
def Skips (env : Env E) (ui : UiRenderer E) (out : Outcome) : Call → Prop
  | .renderAndEncodeFrame state reset => state ≠ .hidden ∧ reset = false ∧ ui.lastState = state ∧
      ui.tryLoadKeyframeCache env out state = none
  | .encodeFrame => ui.lastState ≠ .hidden ∧ ui.tryLoadKeyframeCache env out ui.lastState = none
  | _ => False

/-- **Trusted**: what is not drawn again was drawn. -/
def Trusted (env : Env E) (t : Tracked E) (input : Outcome × Call) : Prop :=
  Skips env t.ui input.1 input.2 → t.drawn = true

/-- **Right**: the frame that is returned and the entry that is stored are of their states. -/
structure Right (env : Env E) (t : Tracked E) (input : Outcome × Call) : Prop where
  frame : ∀ state frame, requested t.ui input.2 = some state → state ≠ .hidden →
    (t.ui.call env input.1 input.2).1 = some frame → FromDrawn env state frame.data frame.spsPps
  stored : FileRight env (t.ui.call env input.1 input.2).2.file

/-! ## One call -/

/-- **The invariant**: what was drawn is shown, and the cache file is right. -/
structure Sound (env : Env E) (t : Tracked E) : Prop where
  shows : t.drawn = true → t.ui.lastState ≠ .hidden → Shows t.ui.fb t.ui.lastState
  file : FileRight env t.ui.file

variable {ui : UiRenderer E} {t : Tracked E} {out : Outcome} {state : UiState} {reset : Bool}

/-- **Drawing** keeps the rest of the renderer, and what it has drawn is shown. -/
theorem renderFramebuffer_spec (h : Sound env t) (out : Outcome) (state : UiState) (reset : Bool) :
    let (ok, next) := t.ui.renderFramebuffer out state reset
    Sound env ⟨next, t.rendered out state reset⟩ ∧
      (ok = .ok () → state ≠ .hidden →
        (reset = false → t.ui.lastState = state → t.drawn = true) →
        Shows next.fb state) := by
  unfold Tracked.rendered renderFramebuffer
  by_cases hskip : state = .hidden ∨ (reset = false ∧ t.ui.lastState = state)
  · rw [if_pos hskip, if_pos hskip]
    refine ⟨h, fun _ hstate hdrawn => ?_⟩
    obtain ⟨hreset, hlast⟩ := hskip.resolve_left hstate
    rw [← hlast] at hstate ⊢
    exact h.shows (hdrawn hreset hlast) hstate
  · rw [if_neg hskip, if_neg hskip]
    dsimp only
    generalize hbefore : (if reset = true then _ else t.ui.fb) = before
    cases hrun : Framebuffer.execute before out.failAt state.asOps with
    | mk ok fb =>
      cases ok with
      | true => exact ⟨⟨fun _ _ => ⟨_, _, hrun⟩, h.file⟩, fun _ _ _ => ⟨_, _, hrun⟩⟩
      | false =>
        refine ⟨⟨fun hdrawn hstate => ?_, h.file⟩, nofun⟩
        obtain ⟨hold, hsame⟩ := Bool.and_eq_true _ _ ▸ hdrawn
        have hfb : fb = t.ui.fb := of_decide_eq_true hsame
        show Shows fb t.ui.lastState
        rw [hfb]
        exact h.shows hold hstate

/-- **Encoding** keeps the framebuffer, and its frame is of it. -/
theorem encode_spec (env : Env E) (ui : UiRenderer E) :
    let (frame, next) := ui.encode env
    (next.fb = ui.fb ∧ next.lastState = ui.lastState ∧ next.file = ui.file) ∧
      ∀ data, frame = .ok data → EncodingOf env ui.fb data next.headers := by
  unfold encode
  cases ui.h264.or (env.newEncoder ui.width ui.height ui.fps) with
  | none => exact ⟨⟨rfl, rfl, rfl⟩, nofun⟩
  | some e =>
    dsimp only
    cases hframe : env.updateRgba e ui.fb with
    | mk e' frame =>
      cases frame with
      | none => exact ⟨⟨rfl, rfl, rfl⟩, nofun⟩
      | some data =>
        dsimp only
        cases hheaders : env.getHeaders e' with
        | none => exact ⟨⟨rfl, rfl, rfl⟩, nofun⟩
        | some headers =>
          refine ⟨⟨rfl, rfl, rfl⟩, ?_⟩
          rintro _ ⟨⟩
          refine ⟨e, ?_, ?_⟩
          · rw [hframe]
          · rw [hframe]
            exact hheaders

theorem cacheFileName_of_cacheFile (h : ui.cacheFile state ≠ false) :
    state.cacheFileName.isSome = true := by
  cases hname : state.cacheFileName.isSome with
  | true => rfl
  | false =>
    unfold cacheFile at h
    rw [hname, Bool.and_false] at h
    exact absurd rfl h

/-- **Storing** a frame of the state keeps the cache file right. -/
theorem storeKeyframeCache_spec (out : Outcome) (hfile : FileRight env ui.file) {data : Bytes}
    (hframe : state.cacheFileName.isSome = true → FromDrawn env state data ui.headers) :
    (ui.storeKeyframeCache env out state data).fb = ui.fb ∧
      (ui.storeKeyframeCache env out state data).lastState = ui.lastState ∧
      FileRight env (ui.storeKeyframeCache env out state data).file := by
  unfold storeKeyframeCache
  split
  · exact ⟨rfl, rfl, hfile⟩
  · rename_i hcached
    have hname := cacheFileName_of_cacheFile (fun h => hcached (by rw [h]; rfl))
    split
    · refine ⟨rfl, rfl, fun key entry hentry => ?_⟩
      dsimp only at hentry
      split at hentry
      · exact hfile key entry hentry
      · cases hentry
    · refine ⟨rfl, rfl, fun key entry hentry => ?_⟩
      cases hentry
      exact ⟨ui, state, hname, rfl, hframe hname⟩

/-- **A frame out of the cache** is of its state. -/
theorem tryLoadKeyframeCache_spec (hfile : FileRight env ui.file) {frame : EncodedVideoFrame}
    (h : ui.tryLoadKeyframeCache env out state = some frame) :
    FromDrawn env state frame.data frame.spsPps := by
  unfold tryLoadKeyframeCache at h
  split at h
  · cases h
  · rename_i hcached
    cases hentry : ui.file with
    | none =>
      rw [hentry] at h
      cases h
    | some stored =>
      obtain ⟨key, entry⟩ := stored
      rw [hentry] at h
      dsimp only at h
      split at h
      · cases h
      · cases h
        obtain ⟨_, state', hname', -, hdrawn⟩ := hfile key entry hentry
        have hname := cacheFileName_of_cacheFile (fun h => hcached (by rw [h]; rfl))
        rw [eq_of_cacheFileName hname hname']
        exact hdrawn

/-- **A frame that is asked for.** Where a state is not drawn again only if it was drawn, the frame
is of the state. -/
theorem renderAndEncodeFrame_spec (h : Sound env t) (out : Outcome) (state : UiState)
    (reset : Bool)
    (htrusted : state ≠ .hidden → reset = false → t.ui.lastState = state →
      t.ui.tryLoadKeyframeCache env out state = none → t.drawn = true) :
    Sound env ⟨(t.ui.renderAndEncodeFrame env out state reset).2,
        t.after env out (.renderAndEncodeFrame state reset)⟩ ∧
      ∀ f, (t.ui.renderAndEncodeFrame env out state reset).1.toOption = some f →
        state ≠ .hidden → FromDrawn env state f.data f.spsPps := by
  unfold renderAndEncodeFrame Tracked.after
  dsimp only
  cases hload : (if reset = true then none else t.ui.tryLoadKeyframeCache env out state) with
  | some frame =>
    have hhit : t.ui.tryLoadKeyframeCache env out state = some frame := by
      cases reset with
      | true => cases hload
      | false => exact hload
    refine ⟨⟨fun hdrawn hstate => ?_, h.file⟩, ?_⟩
    · obtain ⟨hold, hsame⟩ := Bool.and_eq_true _ _ ▸ hdrawn
      have hlast : t.ui.lastState = state := of_decide_eq_true hsame
      rw [← hlast] at hstate ⊢
      exact h.shows hold hstate
    · rintro _ ⟨⟩ -
      exact tryLoadKeyframeCache_spec h.file hhit
  | none =>
    have hdrawn : reset = false → t.ui.lastState = state → state ≠ .hidden → t.drawn = true := by
      rintro rfl hlast hstate
      exact htrusted hstate rfl hlast hload
    have hrender := renderFramebuffer_spec h out state reset
    dsimp only
    rw [Option.isSome_none, if_neg Bool.false_ne_true]
    cases hrendered : t.ui.renderFramebuffer out state reset with
    | mk ok next =>
      rw [hrendered] at hrender
      obtain ⟨hsound, hshows⟩ := hrender
      cases ok with
      | error e => exact ⟨hsound, nofun⟩
      | ok _ =>
        have hencode := encode_spec env next
        dsimp only
        cases hencoded : next.encode env with
        | mk frame enc =>
          rw [hencoded] at hencode
          obtain ⟨⟨hfb, hlast, hfile⟩, hencoding⟩ := hencode
          cases frame with
          | error e =>
            refine ⟨⟨fun hd hs => ?_, hfile ▸ hsound.file⟩, nofun⟩
            rw [hlast] at hs ⊢
            rw [hfb]
            exact hsound.shows hd hs
          | ok data =>
            have hframe : state ≠ .hidden → FromDrawn env state data enc.headers := fun hstate =>
              ⟨next.fb, hshows rfl hstate fun hr hl => hdrawn hr hl hstate, hencoding data rfl⟩
            obtain ⟨hfb', hlast', hfile'⟩ := storeKeyframeCache_spec out
              (hfile ▸ hsound.file) fun hname => hframe (by rintro rfl; cases hname)
            refine ⟨⟨fun hd hs => ?_, hfile'⟩, ?_⟩
            · rw [hlast', hlast] at hs ⊢
              rw [hfb', hfb]
              exact hsound.shows hd hs
            · rintro _ ⟨⟩ hstate
              exact hframe hstate

/-! ## All calls -/

/-- **One call** of any kind. -/
theorem step_spec (h : Sound env t) (input : Outcome × Call) (htrusted : Trusted env t input) :
    Right env t input ∧ ∃ next, step env t input = some next ∧ Sound env next := by
  obtain ⟨out, call⟩ := input
  cases call with
  | update state =>
    obtain ⟨hsound, -⟩ := renderFramebuffer_spec h out state false
    exact ⟨⟨nofun, hsound.file⟩, _, rfl, hsound⟩
  | renderAndEncodeFrame state reset =>
    obtain ⟨hsound, hframe⟩ := renderAndEncodeFrame_spec h out state reset
      fun hstate hreset hlast hmiss => htrusted ⟨hstate, hreset, hlast, hmiss⟩
    refine ⟨⟨?_, hsound.file⟩, _, rfl, hsound⟩
    rintro _ frame ⟨⟩ hstate hreturned
    exact hframe frame hreturned hstate
  | encodeFrame =>
    obtain ⟨hsound, hframe⟩ := renderAndEncodeFrame_spec h out t.ui.lastState false
      fun hstate _ _ hmiss => htrusted ⟨hstate, hmiss⟩
    have hafter : t.after env out (.renderAndEncodeFrame t.ui.lastState false) = t.drawn := by
      have hskip : t.rendered out t.ui.lastState false = t.drawn := if_pos (.inr ⟨rfl, rfl⟩)
      unfold Tracked.after
      dsimp only
      rw [hskip, decide_eq_true rfl, Bool.and_true]
      exact ite_self _
    rw [hafter] at hsound
    refine ⟨⟨?_, hsound.file⟩, _, rfl, hsound⟩
    rintro _ frame ⟨⟩ hstate hreturned
    exact hframe frame hreturned hstate
  | new width height fps dpi =>
    exact ⟨⟨nofun, h.file⟩, _, rfl, fun _ hstate => absurd rfl hstate, h.file⟩
  | loseFile => exact ⟨⟨nofun, nofun⟩, _, rfl, h.shows, nofun⟩

/-- **The frames of every run** are of the states asked for, and so are the entries of the cache, where
no state is encoded without drawing that was not drawn. -/
theorem frames_show_state (env : Env E) (width height : Int) (fps dpi : UInt32) (persistDir : Bool)
    (calls : List (Outcome × Call))
    (h : Run.AllSteps (step env) (Trusted env) ⟨.new width height fps dpi persistDir none, true⟩
      calls) :
    Run.AllSteps (step env) (Right env) ⟨.new width height fps dpi persistDir none, true⟩ calls :=
  (Run.run_progress (Sound env) (Trusted env) (Right env)
    (fun _ input hsound htrusted => step_spec hsound input htrusted)
    ⟨fun _ hstate => absurd rfl hstate, fun _ _ hentry => by cases hentry⟩ h).1

/-! ## Runs -/

/-- An encoder that tells a framebuffer that was never drawn to from the others. -/
def plainEnv : Env Unit where
  newEncoder _ _ _ := some ()
  updateRgba _ fb := ((), some [if fb.drawn = [] then 0 else 1])
  getHeaders _ := some []
  display _ := "WaitingForConnection"

def plainStart : Tracked Unit := ⟨.new 8 8 30 160 true none, true⟩

/-- A frame that is drawn and stored, and one that comes out of the cache. -/
theorem frames_show_state_cached : Run.AllSteps (step plainEnv) (Right plainEnv) plainStart
    [({}, .renderAndEncodeFrame .waitingForConnection false), ({}, .encodeFrame)] := by
  refine frames_show_state plainEnv 8 8 30 160 true _ ⟨fun hskips => ?_, ?_⟩
  · obtain ⟨-, -, hlast, -⟩ := hskips
    cases hlast
  · rintro _ ⟨⟩
    exact ⟨fun _ => rfl, fun _ _ => trivial⟩

/-- What is executed completely is drawn behind what there was. -/
theorem execute_drawn {before fb : Framebuffer} {failAt : Option Nat} {ops : List RenderOp}
    (h : before.execute failAt ops = (true, fb)) :
    fb.drawn = before.drawn ++ ops.filter RenderOp.draws := by
  induction ops generalizing before failAt with
  | nil =>
    cases h
    exact (List.append_nil _).symm
  | cons op ops ih =>
    unfold Framebuffer.execute at h
    split at h
    · cases h
    · rw [ih h]
      unfold Framebuffer.draw
      cases hdraws : op.draws with
      | true =>
        rw [if_pos rfl, List.filter_cons_of_pos hdraws]
        exact List.append_assoc _ _ _
      | false => rw [if_neg Bool.false_ne_true, List.filter_cons_of_neg (by rw [hdraws]; decide)]

/-- **A frame of nothing** is returned, and stored: the next renderer takes its first frame out of
the cache, and the next time the file cannot be read. -/
theorem frames_show_nothing : ¬Run.AllSteps (step plainEnv) (Right plainEnv) plainStart
    [({}, .renderAndEncodeFrame .waitingForConnection false), ({}, .new 8 8 30 160),
      ({}, .renderAndEncodeFrame .waitingForConnection false),
      ({ read := false }, .encodeFrame)] := by
  intro h
  have hlast := (((h.2 _ rfl).2 _ rfl).2 _ rfl).1
  obtain ⟨fb, ⟨before, failAt, hrun⟩, _, hdata, -⟩ :=
    hlast.frame .waitingForConnection ⟨8, 8, [0], []⟩ rfl nofun rfl
  have hdrawn := execute_drawn hrun
  have hne : fb.drawn ≠ [] := by
    rw [hdrawn]
    exact List.append_ne_nil_of_right_ne_nil _ (by decide)
  have hone : some [if fb.drawn = [] then (0 : UInt8) else 1] = some [0] := hdata
  rw [if_neg hne] at hone
  cases hone

end Catplay.Analysis.Ui
