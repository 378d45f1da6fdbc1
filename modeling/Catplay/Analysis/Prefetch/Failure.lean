import Catplay.Analysis.Prefetch.Stream

/-!
# A call that the provider fails

`apply` moves the cursor before it calls the provider, and sets it to the offset of the call when the
provider fails. For a call at the cursor that puts it back; for one before or behind the cursor it
leaves the cursor there, and the next call to `apply_next` takes up at a place it had not come to
(`failed_apply_moves_cursor`). The buffer and the statistics are left alone in either case
(`failed_apply`).
-/

set_option autoImplicit false

namespace Catplay.Analysis.Prefetch

open Catplay.Library.Keystream Catplay.Library.Run Catplay.Model.Prefetch

variable {P : Type}

/-! ## The buffer -/

variable {call : Lookup P} {ks : P → UInt64 → Nat → UInt8} {ok : Bool} {state : State P}
  {s t : Tracked P}

/-- A provider that fails leaves the buffer alone, and so does the call. -/
theorem finishBuffer_error {error : ApplyError} (h : (state.finish ks call ok).2 = .error error)
    {failed : List UInt8 → List UInt8} (hfailed : ∀ buffer, failed buffer = buffer) :
    State.finishBuffer ks failed call ok = call.data := by
  unfold State.finish at h
  unfold State.finishBuffer
  dsimp only at h ⊢
  by_cases hfails : call.data.length - call.cachedLen > 0 ∧ (!ok) = true
  · rw [if_pos hfails, hfailed, List.take_append_drop]
  · rw [if_neg hfails] at h
    cases h

/-! ## The worker during a call -/

def byWorker : Action P → Bool
  | .takeJob => true
  | .publish _ => true
  | _ => false

/-- What the worker leaves alone. -/
structure OnlyGenerated (before after : Tracked P) : Prop where
  call : after.prefetch.call = before.prefetch.call
  provider : after.prefetch.state.provider = before.prefetch.state.provider
  nonce : after.prefetch.state.nonce = before.prefetch.state.nonce
  consumed : after.prefetch.state.consumed = before.prefetch.state.consumed
  request : after.request = before.request
  log : after.log = before.log
  cycle : after.prefetch.state.cycle =
    { before.prefetch.state.cycle with generatedBytes := after.prefetch.state.cycle.generatedBytes }

theorem OnlyGenerated.refl (s : Tracked P) : OnlyGenerated s s := ⟨rfl, rfl, rfl, rfl, rfl, rfl, rfl⟩

theorem OnlyGenerated.trans {u : Tracked P} (h : OnlyGenerated s t) (h' : OnlyGenerated t u) :
    OnlyGenerated s u := by
  refine ⟨h'.call.trans h.call, h'.provider.trans h.provider, h'.nonce.trans h.nonce,
    h'.consumed.trans h.consumed, h'.request.trans h.request, h'.log.trans h.log, ?_⟩
  rw [h'.cycle, h.cycle]

theorem takeJob_cycle (worker : CoreWorker P) (state : State P) :
    (worker.takeJob state).2.cycle = state.cycle := by
  obtain ⟨failed, hidle⟩ | ⟨job, scheduled, -, -, htaken, -⟩ := takeJob_cases worker state
  · rw [hidle]
  · rw [htaken]

theorem publish_cycle {worker after : CoreWorker P}
    {next : State P} (h : worker.publish ks state ok = some (after, next)) :
    next.cycle = { state.cycle with generatedBytes := next.cycle.generatedBytes } := by
  unfold CoreWorker.publish at h
  split at h
  · dsimp only at h
    split at h
    · cases h
      rfl
    · split at h
      · cases h
        rfl
      · split at h
        · cases h
          rfl
        · split at h <;> cases h <;> rfl
  · cases h

/-- **A step of the worker.** -/
theorem worker_step {action : Action P}
    (hworker : byWorker action = true) (hstep : s.step ks action = some t) :
    OnlyGenerated s t ∧ (action = .takeJob →
      t.prefetch.state.cycle = s.prefetch.state.cycle) := by
  obtain ⟨now, reply, hnow, rfl⟩ := Tracked.step_eq_some.mp hstep
  unfold KeystreamPrefetch.step at hnow
  split at hnow
  case h_2 worker _ =>
    split at hnow
    next => cases hnow
    next =>
      cases hnow
      obtain ⟨hprovider, hnonce, hconsumed⟩ := takeJob_frame worker s.prefetch.state
      have hcycle := takeJob_cycle worker s.prefetch.state
      rw [Tracked.observe_quiet s (fun _ hnone => by cases hnone)]
      have hall : ∀ cycle, cycle = s.prefetch.state.cycle →
          cycle = { s.prefetch.state.cycle with generatedBytes := cycle.generatedBytes } := by
        rintro cycle rfl
        rfl
      exact ⟨⟨rfl, hprovider, hnonce, hconsumed, rfl, rfl, hall _ hcycle⟩, fun _ => hcycle⟩
  case h_3 ok worker _ =>
    obtain ⟨⟨after, next⟩, hpublish, hnow⟩ := Option.map_eq_some_iff.mp hnow
    cases hnow
    obtain ⟨hprovider, hnonce, hconsumed⟩ := publish_frame hpublish
    rw [Tracked.observe_quiet s (fun _ hnone => by cases hnone)]
    exact ⟨⟨rfl, hprovider, hnonce, hconsumed, rfl, rfl, publish_cycle hpublish⟩,
      fun hfalse => by cases hfalse⟩
  case h_12 => cases hnow
  all_goals cases hworker

theorem worker_run {actions : List (Action P)}
    (hworker : ∀ action ∈ actions, byWorker action = true)
    (hrun : run (Tracked.step ks) s actions = some t) :
    OnlyGenerated s t ∧ ((∀ ok, .publish ok ∉ actions) →
      t.prefetch.state.cycle = s.prefetch.state.cycle) := by
  induction actions generalizing s with
  | nil =>
    obtain rfl := Option.some.inj hrun
    exact ⟨OnlyGenerated.refl s, fun _ => rfl⟩
  | cons action actions ih =>
    obtain ⟨u, hstep, hrest⟩ := run_cons_eq_some.mp hrun
    obtain ⟨hfirst, hcycle⟩ := worker_step (hworker action List.mem_cons_self) hstep
    obtain ⟨hlater, hcycle'⟩ := ih (fun a ha => hworker a (List.mem_cons_of_mem action ha)) hrest
    refine ⟨hfirst.trans hlater, fun hnone => ?_⟩
    have htake : action = .takeJob := by
      have haction := hworker action List.mem_cons_self
      cases action with
      | takeJob => rfl
      | publish ok => exact absurd List.mem_cons_self (hnone ok)
      | _ => cases haction
    rw [hcycle' (fun ok hok => hnone ok (List.mem_cons_of_mem action hok)), hcycle htake]

/-! ## One call -/

/-- What looking into the cache leaves alone. -/
theorem lookUp_frame (state : State P) (nonce : UInt64) (offset : Nat) (data : List UInt8) :
    (state.lookUp nonce offset data).1.provider = state.provider ∧
      (state.lookUp nonce offset data).1.nonce = state.nonce ∧
      (state.lookUp nonce offset data).1.cycle = state.cycle ∧
      (state.lookUp nonce offset data).2.offset = offset ∧
      (state.lookUp nonce offset data).2.data = data ∧
      (state.lookUp nonce offset data).2.tracked = (state.nonce == nonce) ∧
      (state.nonce ≠ nonce → (state.lookUp nonce offset data).1 = state) := by
  unfold State.lookUp
  dsimp only
  by_cases htracked : (state.nonce == nonce) = true ∧ offset ≥ state.consumed
  · rw [if_pos htracked]
    have hsame : state.nonce = nonce := eq_of_beq htracked.1
    split
    · exact ⟨rfl, rfl, rfl, rfl, rfl, rfl, fun hne => absurd hsame hne⟩
    · exact ⟨rfl, rfl, rfl, rfl, rfl, rfl, fun hne => absurd hsame hne⟩
  · rw [if_neg htracked]
    exact ⟨rfl, rfl, rfl, rfl, rfl, rfl, fun _ => rfl⟩

/-- **A call up to its last lock**: the cursor may have moved, for a nonce that is tracked. -/
structure InCall (s u : Tracked P) (request : Request P) (call : Lookup P) : Prop where
  lookedUp : u.prefetch.call = some (.lookedUp call)
  offset : call.offset = request.offset
  data : call.data = request.data
  tracked : call.tracked = (s.prefetch.state.nonce == request.nonce)
  provider : u.prefetch.state.provider = s.prefetch.state.provider
  nonce : u.prefetch.state.nonce = s.prefetch.state.nonce
  untracked : s.prefetch.state.nonce ≠ request.nonce →
    u.prefetch.state.consumed = s.prefetch.state.consumed
  made : u.request = some request
  log : u.log = s.log
  cycle : u.prefetch.state.cycle =
    { s.prefetch.state.cycle with generatedBytes := u.prefetch.state.cycle.generatedBytes }

theorem step_lookUp {prefetch now : KeystreamPrefetch P}
    {reply : Option Reply} (h : prefetch.step ks .lookUp = some (now, reply)) :
    ∃ nonce offset data, prefetch.call = some (.entered nonce offset data) ∧
      now = { prefetch with
        state := (prefetch.state.lookUp nonce offset data).1
        call := some (.lookedUp (prefetch.state.lookUp nonce offset data).2) } ∧
      reply = none := by
  unfold KeystreamPrefetch.step at h
  split at h
  case h_6 nonce offset data _ hcall =>
    cases h
    exact ⟨nonce, offset, data, hcall, rfl, rfl⟩
  case h_12 => cases h
  all_goals contradiction

/-- The action of a call to `apply` or to `apply_next`. -/
def Calls (ks : P → UInt64 → Nat → UInt8) (s : Tracked P) (action : Action P)
    (request : Request P) : Prop :=
  s.prefetch.call = none ∧ s.requestOf action = some request ∧
    s.prefetch.step ks action = some (s.prefetch.enter request.nonce request.offset request.data)

theorem callRun_spec {u : Tracked P} {action : Action P}
    {request : Request P} (hcalls : Calls ks s action request)
    {before between : List (Action P)} (hworker : ∀ a ∈ before ++ between, byWorker a = true)
    (hrun : run (Tracked.step ks) s (action :: (before ++ .lookUp :: between)) = some u) :
    ∃ call, InCall s u request call ∧ ((∀ ok, .publish ok ∉ before ++ between) →
      u.prefetch.state.cycle = s.prefetch.state.cycle) := by
  obtain ⟨hidle, hrequest, haction⟩ := hcalls
  obtain ⟨v, hstep, hrest⟩ := run_cons_eq_some.mp hrun
  obtain ⟨w, hbefore, hlater⟩ := run_append.mp hrest
  obtain ⟨x, hlook, hbetween⟩ := run_cons_eq_some.mp hlater
  obtain ⟨hw, hwCycle⟩ := worker_run (fun a ha => hworker a (List.mem_append_left _ ha)) hbefore
  obtain ⟨hu, huCycle⟩ := worker_run (fun a ha => hworker a (List.mem_append_right _ ha)) hbetween
  obtain ⟨now, reply, hnow, rfl⟩ := Tracked.step_eq_some.mp hstep
  rw [haction] at hnow
  obtain ⟨now', reply', hnow', rfl⟩ := Tracked.step_eq_some.mp hlook
  obtain ⟨nonce, offset, data, hcall, rfl, rfl⟩ := step_lookUp hnow'
  rw [hw.call, Tracked.observe_prefetch] at hcall
  -- the call was entered, since it looks into the cache later
  have hentered : now = { s.prefetch with call := some (.entered request.nonce request.offset
      request.data) } ∧ reply = none := by
    unfold KeystreamPrefetch.enter at hnow
    split at hnow
    · cases hnow
      rw [hidle] at hcall
      cases hcall
    · split at hnow
      · cases hnow
        rw [hidle] at hcall
        cases hcall
      · cases hnow
        exact ⟨rfl, rfl⟩
  obtain ⟨rfl, rfl⟩ := hentered
  cases hcall
  rw [Tracked.observe_quiet s (fun _ hnone => by cases hnone)] at hw hwCycle
  rw [Tracked.observe_quiet w (fun _ hnone => by cases hnone)] at hu huCycle
  obtain ⟨hprovider, hnonce, hcycle, hoffset, hdata, htracked, huntracked⟩ :=
    lookUp_frame w.prefetch.state request.nonce request.offset request.data
  have hwNonce : w.prefetch.state.nonce = s.prefetch.state.nonce := hw.nonce
  refine ⟨_, ⟨hu.call, hoffset, hdata, ?_, hu.provider.trans (hprovider.trans hw.provider),
    hu.nonce.trans (hnonce.trans hw.nonce), fun hne => ?_, ?_, hu.log.trans hw.log, ?_⟩,
    fun hnone => ?_⟩
  · rw [htracked, hwNonce]
  · have hsame := huntracked (hwNonce ▸ hne)
    have hconsumed := hu.consumed
    dsimp only at hconsumed
    rw [hsame] at hconsumed
    exact hconsumed.trans hw.consumed
  · have hmade : w.request = s.requestOf action := hw.request
    have hmade' : u.request = w.request := hu.request
    rw [hmade', hmade, hrequest]
  · have hwGenerated := hw.cycle
    have huGenerated := hu.cycle
    dsimp only at huGenerated hwGenerated
    rw [hcycle] at huGenerated
    rw [huGenerated, hwGenerated]
  · have hfirst := hwCycle fun ok hok => hnone ok (List.mem_append_left _ hok)
    have hsecond := huCycle fun ok hok => hnone ok (List.mem_append_right _ hok)
    exact hsecond.trans (hcycle.trans hfirst)

/-! ## The next call -/

theorem calls_apply {nonce : UInt64}
    {offset : Nat} {data : List UInt8} (h : s.step ks (.apply nonce offset data) = some t) :
    Calls ks s (.apply nonce offset data)
      ⟨s.prefetch.state.provider, nonce, offset, data, false, none⟩ := by
  obtain ⟨now, reply, hnow, -⟩ := Tracked.step_eq_some.mp h
  have hidle : s.prefetch.call = none := by
    unfold KeystreamPrefetch.step at hnow
    split at hnow
    case h_4 hidle => exact hidle
    case h_12 => cases hnow
    all_goals contradiction
  refine ⟨hidle, rfl, ?_⟩
  unfold KeystreamPrefetch.step
  rw [hidle]

theorem calls_applyNext {data : List UInt8} (h : s.step ks (.applyNext data) = some t) :
    Calls ks s (.applyNext data) ⟨s.prefetch.state.provider, s.prefetch.state.nonce,
      s.prefetch.state.consumed, data, true, s.leftOff⟩ := by
  obtain ⟨now, reply, hnow, -⟩ := Tracked.step_eq_some.mp h
  have hidle : s.prefetch.call = none := by
    unfold KeystreamPrefetch.step at hnow
    split at hnow
    case h_5 hidle => exact hidle
    case h_12 => cases hnow
    all_goals contradiction
  refine ⟨hidle, rfl, ?_⟩
  unfold KeystreamPrefetch.step
  rw [hidle]

theorem step_finish {prefetch now : KeystreamPrefetch P} {reply : Option Reply}
    (hcall : prefetch.call = some (.lookedUp call))
    (h : prefetch.step ks (.finish ok) = some (now, reply)) :
    now = { prefetch with state := (prefetch.state.finish ks call ok).1, call := none } ∧
      reply = some (.applied (prefetch.state.finish ks call ok).2) := by
  unfold KeystreamPrefetch.step at h
  rw [hcall] at h
  obtain ⟨rfl, rfl⟩ := Prod.mk.inj (Option.some.inj h)
  exact ⟨rfl, rfl⟩

/-- **What the next call to `apply_next` gives** when it succeeds, in some interleaving with the
worker in which the generation counter has not come round. -/
def NextGives (ks : P → UInt64 → Nat → UInt8) (s : Tracked P) (input output : List UInt8) : Prop :=
  ∃ (before between : List (Action P)) (u : Tracked P) (ok : Bool) (now : KeystreamPrefetch P)
    (result : PrefetchResult),
    (∀ a ∈ before ++ between, byWorker a = true) ∧
      run (Tracked.step ks) s (.applyNext input :: (before ++ .lookUp :: between)) = some u ∧
      u.prefetch.step ks (.finish ok) = some (now, some (.applied (.ok (output, result)))) ∧
      (u.observe (.finish ok) now (some (.applied (.ok (output, result))))).epochs.current < 2 ^ 64

theorem le_epoch_run {actions : List (Action P)}
    (hrun : run (Tracked.step ks) s actions = some t) : s.epochs.current ≤ t.epochs.current :=
  run_invariant (fun u => s.epochs.current ≤ u.epochs.current)
    (fun _ _ _ hle hstep => Nat.le_trans hle (le_epoch_step hstep)) (Nat.le_refl _) hrun

/-- **The next call** puts the keystream from the cursor on its input. -/
theorem nextGives_output (hsound : s.epochs.current < 2 ^ 64 → Sound ks s)
    {input output : List UInt8} (h : NextGives ks s input output) :
    output = xorBytes input
      (window (ks s.prefetch.state.provider s.prefetch.state.nonce) s.prefetch.state.consumed
        input.length) := by
  obtain ⟨before, between, u, ok, now, result, hworker, hrun, hfinish, hepoch⟩ := h
  obtain ⟨v, hentered, -⟩ := run_cons_eq_some.mp hrun
  obtain ⟨call, hcall, -⟩ := callRun_spec (calls_applyNext hentered) hworker hrun
  have hstep : u.step ks (.finish ok) =
      some (u.observe (.finish ok) now (some (.applied (.ok (output, result))))) :=
    Tracked.step_eq_some.mpr ⟨now, _, hfinish, rfl⟩
  have hu := le_epoch_step hstep
  have hs := le_epoch_run hrun
  have hfinal := (sound_run (hsound (by omega)) hrun (by omega)).step hstep hepoch
  have hlog : (u.observe (.finish ok) now (some (.applied (.ok (output, result))))).log =
      u.log ++ [{ request := ⟨s.prefetch.state.provider, s.prefetch.state.nonce,
        s.prefetch.state.consumed, input, true, s.leftOff⟩, output := output }] := by
    have hmade : u.requestOf (.finish ok) = some _ := hcall.made
    unfold Tracked.observe
    rw [hmade]
  have happlied := (hfinal.log _ (by
    rw [hlog]
    exact List.mem_append_right _ List.mem_cons_self)).1
  exact happlied

/-! ## A failed call -/

/-- What a call leaves alone that is as if it had not been made: the cursor, the statistics of the
consumer and what the next call to `apply_next` gives. -/
structure Untouched (ks : P → UInt64 → Nat → UInt8) (s t : Tracked P) : Prop where
  consumed : t.prefetch.state.consumed = s.prefetch.state.consumed
  cycle : t.prefetch.state.cycle =
    { s.prefetch.state.cycle with generatedBytes := t.prefetch.state.cycle.generatedBytes }
  next : ∀ input output output', NextGives ks s input output → NextGives ks t input output' →
    output' = output

theorem finish_error {error : ApplyError} (h : (state.finish ks call false).2 = .error error) :
    (state.finish ks call false).1.consumed =
        (if call.tracked then call.offset else state.consumed) ∧
      (state.finish ks call false).1.provider = state.provider ∧
      (state.finish ks call false).1.nonce = state.nonce ∧
      (state.finish ks call false).1.cycle = state.cycle := by
  unfold State.finish at h ⊢
  dsimp only at h ⊢
  by_cases hfails : call.data.length - call.cachedLen > 0 ∧ (!false) = true
  · rw [if_pos hfails]
    by_cases htracked : call.tracked = true
    · rw [if_pos htracked, if_pos htracked]
      exact ⟨rfl, rfl, rfl, rfl⟩
    · rw [if_neg htracked, if_neg htracked]
      exact ⟨rfl, rfl, rfl, rfl⟩
  · rw [if_neg hfails] at h
    cases h

/-- **A call that the provider fails.** From every state that a run leads to and in every
interleaving with the worker: the caller's buffer is as it was, the call counts nothing, and the
cursor with what follows is as if the call had not been made exactly when its nonce is not the
tracked one or its offset is at the cursor. -/
theorem failed_apply (ks : P → UInt64 → Nat → UInt8) (provider : P) (first : UInt64)
    (schedule : Schedule) (start : Nat) (config : Config) (actions : List (Action P))
    (s : Tracked P)
    (hrun : run (Tracked.step ks) (.new (.new provider first schedule start config)) actions =
      some s)
    (nonce : UInt64) (offset : Nat) (data : List UInt8) (before between : List (Action P))
    (hworker : ∀ a ∈ before ++ between, byWorker a = true) (u : Tracked P)
    (hcall : run (Tracked.step ks) s
      (.apply nonce offset data :: (before ++ .lookUp :: between)) = some u)
    (now : KeystreamPrefetch P)
    (hfails : u.prefetch.step ks (.finish false) =
      some (now, some (.applied (.error .provider)))) :
    (∃ call, u.prefetch.call = some (.lookedUp call) ∧
        ∀ failed, (∀ buffer, failed buffer = buffer) →
          State.finishBuffer ks failed call false = data) ∧
      ((∀ ok, .publish ok ∉ before ++ between) →
        now.state.cycle = s.prefetch.state.cycle) ∧
      (Untouched ks s (u.observe (.finish false) now (some (.applied (.error .provider)))) ↔
        nonce ≠ s.prefetch.state.nonce ∨ offset = s.prefetch.state.consumed) := by
  obtain ⟨v, hentered, -⟩ := run_cons_eq_some.mp hcall
  obtain ⟨call, hin, hquiet⟩ := callRun_spec (calls_apply hentered) hworker hcall
  obtain ⟨hnow, hreply⟩ := step_finish hin.lookedUp hfails
  have herror : (u.prefetch.state.finish ks call false).2 = .error .provider := by
    have happlied := Option.some.inj hreply
    exact (Reply.applied.inj happlied).symm
  obtain ⟨hconsumed, hprovider, hnonce, hcycle⟩ := finish_error herror
  have hstate : now.state = (u.prefetch.state.finish ks call false).1 := by rw [hnow]
  rw [← hstate] at hconsumed hprovider hnonce hcycle
  have hstep : u.step ks (.finish false) =
      some (u.observe (.finish false) now (some (.applied (.error .provider)))) :=
    Tracked.step_eq_some.mpr ⟨now, _, hfails, rfl⟩
  have hlater : run (Tracked.step ks) (.new (.new provider first schedule start config))
      (actions ++ ((.apply nonce offset data :: (before ++ .lookUp :: between)) ++
        [.finish false])) =
        some (u.observe (.finish false) now (some (.applied (.error .provider)))) :=
    run_append.mpr ⟨s, hrun, run_append.mpr ⟨u, hcall, run_cons_eq_some.mpr ⟨_, hstep, rfl⟩⟩⟩
  have hsound := sound_new ks provider first schedule start config
  have htracked : call.tracked = (s.prefetch.state.nonce == nonce) := hin.tracked
  have hoffset : call.offset = offset := hin.offset
  have hcursor : now.state.consumed =
      if s.prefetch.state.nonce = nonce then offset else s.prefetch.state.consumed := by
    rw [hconsumed, htracked, hoffset]
    by_cases hsame : s.prefetch.state.nonce = nonce
    · rw [if_pos hsame, if_pos (beq_iff_eq.mpr hsame)]
    · have huntracked : u.prefetch.state.consumed = s.prefetch.state.consumed :=
        hin.untracked hsame
      rw [if_neg hsame, if_neg (fun heq => hsame (beq_iff_eq.mp heq)), huntracked]
  refine ⟨⟨call, hin.lookedUp, fun failed hfailed => ?_⟩, fun hnone => ?_, ?_⟩
  · rw [finishBuffer_error herror hfailed]
    exact hin.data
  · rw [hcycle, hquiet hnone]
  · have hobserved : (u.observe (.finish false) now
        (some (.applied (.error .provider)))).prefetch.state = now.state := by
      rw [Tracked.observe_prefetch]
    constructor
    · intro huntouched
      have hback := huntouched.consumed
      rw [hobserved, hcursor] at hback
      by_cases hsame : s.prefetch.state.nonce = nonce
      · rw [if_pos hsame] at hback
        exact Or.inr hback
      · exact Or.inl fun heq => hsame heq.symm
    · intro hcondition
      have hback : now.state.consumed = s.prefetch.state.consumed := by
        rw [hcursor]
        split
        · next hsame =>
          rcases hcondition with hne | heq
          · exact absurd hsame.symm hne
          · exact heq
        · rfl
      refine ⟨by rw [hobserved, hback], ?_, fun input output output' hnext hnext' => ?_⟩
      · rw [hobserved, hcycle]
        exact hin.cycle
      · have hgives := nextGives_output (sound_run hsound hrun) hnext
        have hgives' := nextGives_output (sound_run hsound hlater) hnext'
        rw [hobserved, hprovider, hnonce, hback, hin.provider, hin.nonce] at hgives'
        rw [hgives, hgives']

/-- The position is the keystream. -/
def positions (_ : Unit) (_ : UInt64) (position : Nat) : UInt8 := UInt8.ofNat position

/-- The provider fails at the cursor, while the worker has taken a job. -/
theorem failed_apply_at_cursor :
    ∃ (s u : Tracked Unit) (now : KeystreamPrefetch Unit),
      run (Tracked.step positions) (.new (.new () 7 (.finite 32) 17 (.new 4))) [.startWorker] =
          some s ∧
        run (Tracked.step positions) s [.apply 7 17 [1, 2], .takeJob, .lookUp] = some u ∧
        Untouched positions s
          (u.observe (.finish false) now (some (.applied (.error .provider)))) := by
  refine ⟨_, _, _, rfl, rfl, (failed_apply positions () 7 (.finite 32) 17 (.new 4) [.startWorker] _
    rfl 7 17 [1, 2] [.takeJob] [] ?_ _ rfl _ rfl).2.2.mpr (Or.inr rfl)⟩
  simp [byWorker]

/-- **A failed call in front of the cursor.** The stream is at 17. A call at 20 fails, and the next
call to `apply_next` gives the keystream from 20; without the failed call it gives that from 17. -/
theorem failed_apply_moves_cursor :
    (run (Tracked.step positions) (.new (.new () 7 (.finite 0) 17 (.new 4)))
        [.apply 7 20 [0], .lookUp, .finish false, .applyNext [0], .lookUp, .finish true]).map
          (fun t => t.log.map Applied.output) = some [[20]] ∧
      (run (Tracked.step positions) (.new (.new () 7 (.finite 0) 17 (.new 4)))
        [.applyNext [0], .lookUp, .finish true]).map
          (fun t => t.log.map Applied.output) = some [[17]] ∧
      (run (Tracked.step positions) (.new (.new () 7 (.finite 0) 17 (.new 4)))
        [.apply 7 20 [0], .lookUp, .finish false]).map
          (fun t => t.prefetch.state.consumed) = some 20 := by
  refine ⟨?_, ?_, ?_⟩
  · decide
  · decide
  · decide

end Catplay.Analysis.Prefetch
