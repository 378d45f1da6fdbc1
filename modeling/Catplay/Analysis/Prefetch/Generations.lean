import Catplay.Analysis.Prefetch.History

/-!
# The cache holds the keystream in force

`CacheSound` says what lies between worker and consumer: queued chunks hold the keystream of
the present provider and nonce, they all stem from the present epoch, and a job of the present
epoch is the one in flight. The consumer either keeps the queue but for its front (`Kept`) or
discards it (`Restarted`); either way `CacheSound` holds again, and so after the two halves of
the worker. The generation counter is a `u64`, so this needs fewer than `2 ^ 64` epochs.
-/

set_option autoImplicit false

namespace Catplay.Analysis.Prefetch

open Catplay.Library.Keystream Catplay.Model.Prefetch

variable {P : Type}

/-- The bytes that the job in flight may add. -/
def pending (state : State P) : Nat := (state.inFlight.map Job.len).getD 0

/-- The provider that the worker keeps is the one of the generation that it noted, and its job
is either of an earlier epoch or the one in flight. -/
structure WorkerSound (config : Config) (state : State P) (epochs : Epochs)
    (worker : CoreWorker P) : Prop where
  alignment : worker.requestAlignment = config.requestAlignment
  provider : worker.activeGeneration = state.generation →
    worker.provider = none ∨ worker.provider = some state.provider
  active : worker.provider = none ∨ worker.activeGeneration.toNat ≤ epochs.current
  taken : ∀ job, worker.job = some job →
    job.generation.toNat = epochs.taken ∧ epochs.taken ≤ epochs.current
  current : ∀ job, worker.job = some job → epochs.taken = epochs.current →
    job.nonce = state.nonce ∧ state.inFlight = some job ∧
      worker.activeGeneration = job.generation

structure CacheSound (ks : P → UInt64 → Nat → UInt8) (config : Config)
    (worker : Option (CoreWorker P)) (state : State P) (epochs : Epochs) : Prop where
  generation : state.generation.toNat = epochs.current
  chunks : ∀ chunk ∈ state.chunks, HoldsKeystream (ks state.provider state.nonce) chunk
  available : state.available = readyBytes state.consumed state.chunks
  bounded : ∀ capacity, state.schedule = .continuous capacity →
    state.available + pending state < capacity + config.requestAlignment
  stem : epochs.chunks = List.replicate state.chunks.length epochs.current
  worker : ∀ w, worker = some w → WorkerSound config state epochs w

/-- The consumer used the queue from the front. -/
structure Kept (before after : State P) : Prop where
  provider : after.provider = before.provider
  nonce : after.nonce = before.nonce
  schedule : after.schedule = before.schedule
  generation : after.generation = before.generation
  inFlight : after.inFlight = before.inFlight
  chunks : after.chunks <:+ before.chunks
  available : after.available = readyBytes after.consumed after.chunks
  le : after.available ≤ before.available

/-- The consumer discarded the queue. -/
structure Restarted (before after : State P) : Prop where
  generation : after.generation = before.generation + 1
  chunks : after.chunks = []
  available : after.available = 0
  inFlight : after.inFlight = none

theorem generation_succ_ne (generation : UInt64) : generation + 1 ≠ generation := by
  intro h
  have := congrArg UInt64.toNat h
  rw [UInt64.toNat_add] at this
  have := generation.toNat_lt
  simp only [UInt64.toNat_one] at *
  omega

theorem config_alignment_pos (config : Config) : 0 < config.requestAlignment :=
  Nat.pos_of_isPowerOfTwo config.powerOfTwo

section Epochs

variable {before after : State P}

theorem observe_current_kept (epochs : Epochs) (h : after.generation = before.generation) (takes : Bool) :
    (epochs.observe before after takes).current = epochs.current :=
  if_pos h

theorem observe_current_restarted (epochs : Epochs) (h : Restarted before after) (takes : Bool) :
    (epochs.observe before after takes).current = epochs.current + 1 := by
  apply if_neg
  rw [h.generation]
  exact generation_succ_ne before.generation

/-- The epoch never goes back. -/
theorem le_observe_current (epochs : Epochs) (takes : Bool) :
    epochs.current ≤ (epochs.observe before after takes).current := by
  unfold Epochs.observe
  dsimp only
  split <;> omega

/-- Chunks that leave at the front. -/
theorem observe_chunks_of_le {epochs : Epochs} (h : after.chunks.length ≤ before.chunks.length) (takes : Bool)
    (hepochs : epochs.chunks = List.replicate before.chunks.length epochs.current) :
    (epochs.observe before after takes).chunks =
      List.replicate after.chunks.length epochs.current := by
  unfold Epochs.observe
  dsimp only
  rw [hepochs, List.drop_replicate, Nat.sub_eq_zero_of_le h, List.replicate_zero, List.append_nil]
  congr 1
  omega

end Epochs

/-! ## The consumer -/

section Consumer

variable {ks : P → UInt64 → Nat → UInt8} {config : Config} {worker : Option (CoreWorker P)}
  {before after : State P} {epochs : Epochs}

theorem CacheSound.kept (h : CacheSound ks config worker before epochs)
    (hkept : Kept before after) :
    CacheSound ks config worker after (epochs.observe before after false) := by
  have hcurrent := observe_current_kept epochs hkept.generation false
  have htaken : (epochs.observe before after false).taken = epochs.taken := rfl
  refine ⟨?_, ?_, hkept.available, ?_, ?_, ?_⟩
  · rw [hcurrent, hkept.generation]
    exact h.generation
  · intro chunk hchunk
    rw [hkept.provider, hkept.nonce]
    exact h.chunks chunk (hkept.chunks.mem hchunk)
  · intro capacity hschedule
    have hbound := h.bounded capacity (hkept.schedule ▸ hschedule)
    have hle := hkept.le
    unfold pending at hbound ⊢
    rw [hkept.inFlight]
    omega
  · rw [hcurrent]
    exact observe_chunks_of_le hkept.chunks.length_le false h.stem
  · intro w hw
    have hsound := h.worker w hw
    refine ⟨hsound.alignment, ?_, ?_, ?_, ?_⟩
    · rw [hkept.generation, hkept.provider]
      exact hsound.provider
    · rw [hcurrent]
      exact hsound.active
    · rw [hcurrent, htaken]
      exact hsound.taken
    · rw [hcurrent, htaken, hkept.nonce, hkept.inFlight]
      exact hsound.current

theorem CacheSound.restarted (h : CacheSound ks config worker before epochs)
    (hrestarted : Restarted before after) (hepoch : epochs.current + 1 < 2 ^ 64) :
    CacheSound ks config worker after (epochs.observe before after false) := by
  have hcurrent := observe_current_restarted epochs hrestarted false
  have htaken : (epochs.observe before after false).taken = epochs.taken := rfl
  have hgeneration : after.generation.toNat = epochs.current + 1 := by
    rw [hrestarted.generation, UInt64.toNat_add, h.generation, UInt64.toNat_one]
    exact Nat.mod_eq_of_lt hepoch
  refine ⟨?_, ?_, ?_, ?_, ?_, ?_⟩
  · rw [hcurrent, hgeneration]
  · intro chunk hchunk
    rw [hrestarted.chunks] at hchunk
    cases hchunk
  · rw [hrestarted.available, hrestarted.chunks, readyBytes_nil]
  · intro capacity _
    have hpos := config_alignment_pos config
    unfold pending
    rw [hrestarted.available, hrestarted.inFlight]
    simp only [Option.map_none, Option.getD_none]
    omega
  · unfold Epochs.observe
    dsimp only
    rw [h.stem, hrestarted.chunks]
    simp
  · intro w hw
    have hsound := h.worker w hw
    -- what the worker holds is older than the new epoch
    refine ⟨hsound.alignment, ?_, ?_, ?_, ?_⟩
    · intro hactive
      apply Or.inl
      cases hsound.active with
      | inl hnone => exact hnone
      | inr hle =>
        rw [hactive, hgeneration] at hle
        omega
    · rw [hcurrent]
      exact hsound.active.imp id (by omega)
    · rw [hcurrent, htaken]
      intro job hjob
      obtain ⟨hgen, hle⟩ := hsound.taken job hjob
      exact ⟨hgen, by omega⟩
    · rw [hcurrent, htaken]
      intro job hjob hsame
      have := (hsound.taken job hjob).2
      omega

end Consumer

/-! ## The worker -/

theorem divCeil_mul_lt (n : Nat) {d : Nat} (hd : 0 < d) : CoreWorker.divCeil n d * d < n + d := by
  have := Nat.div_mul_le_self (n + d - 1) d
  unfold CoreWorker.divCeil
  omega

/-- **The first half.** Nothing but the flag changes, or a job of the present generation goes
out that fits under the capacity but for what the alignment adds. -/
theorem takeJob_cases (worker : CoreWorker P) (state : State P) :
    (∃ failed, worker.takeJob state = (worker, { state with failed })) ∨
    ∃ job scheduled, job.generation = state.generation ∧ job.nonce = state.nonce ∧
      worker.takeJob state =
        ({ worker with
            provider := if worker.activeGeneration = state.generation then worker.provider
              else some state.provider
            activeGeneration := state.generation
            job := some job },
          { state with scheduled, inFlight := some job }) ∧
      ∀ capacity, state.schedule = .continuous capacity → 0 < worker.requestAlignment →
        state.available + job.len < capacity + worker.requestAlignment := by
  unfold CoreWorker.takeJob
  by_cases hstop : state.stop
  · rw [if_pos hstop]
    exact .inl ⟨state.failed, rfl⟩
  rw [if_neg hstop]
  by_cases hready : !state.ready
  · rw [if_pos hready]
    exact .inl ⟨state.failed, rfl⟩
  rw [if_neg hready]
  extract_lets start remaining len
  by_cases hlen : len = 0
  · rw [if_pos hlen]
    exact .inl ⟨true, rfl⟩
  rw [if_neg hlen]
  refine .inr ⟨⟨state.generation, state.nonce, start, len⟩, start + len, rfl, rfl, ?_, ?_⟩
  · by_cases hactive : worker.activeGeneration = state.generation
    · rw [if_neg (fun hne => hne hactive), if_pos hactive, hactive]
    · rw [if_pos hactive, if_neg hactive]
  · intro capacity hschedule hpos
    have hroom : state.available < capacity := by
      unfold State.ready at hready
      rw [hschedule] at hready
      by_cases hfailed : state.failed
      · simp [hfailed] at hready
      · simp [hfailed] at hready
        exact hready.1
    have hle : len ≤ CoreWorker.divCeil (capacity - state.available) worker.requestAlignment *
        worker.requestAlignment := by
      have : remaining = CoreWorker.divCeil (capacity - state.available) worker.requestAlignment *
          worker.requestAlignment := by
        unfold remaining
        rw [hschedule]
      omega
    have := divCeil_mul_lt (capacity - state.available) hpos
    show state.available + len < capacity + worker.requestAlignment
    omega

/-- **The second half.** The result is dropped, the provider failed, or the result is
published. -/
theorem publish_cases {ks : P → UInt64 → Nat → UInt8} {worker after : CoreWorker P}
    {state next : State P} {ok : Bool} (h : worker.publish ks state ok = some (after, next)) :
    ∃ job provider, worker.job = some job ∧ worker.provider = some provider ∧
      (after = { worker with job := none } ∧ next = state ∨
        state.generation = job.generation ∧
          (after = { worker with job := none, provider := none } ∧
              next = { state with inFlight := none, failed := true } ∨
            after = { worker with job := none } ∧
              (∃ cycle generatedPosition,
                next = { state with inFlight := none, cycle, generatedPosition }) ∧
              job.offset + job.len ≤ max job.offset state.consumed ∨
            after = { worker with job := none } ∧
              ∃ cycle generatedPosition,
                next =
                  { state with
                    inFlight := none
                    cycle
                    generatedPosition
                    available := state.available +
                      (job.offset + job.len - max job.offset state.consumed)
                    chunks := state.chunks ++
                      [{ bytes := window (ks provider job.nonce) job.offset job.len
                         position := job.offset }] })) := by
  unfold CoreWorker.publish at h
  split at h
  next job provider hjob hprovider =>
    refine ⟨job, provider, hjob, hprovider, ?_⟩
    dsimp only at h
    by_cases hstop : state.stop
    · rw [if_pos hstop] at h
      cases h
      exact .inl ⟨rfl, rfl⟩
    rw [if_neg hstop] at h
    by_cases hgeneration : state.generation ≠ job.generation
    · rw [if_pos hgeneration] at h
      cases h
      exact .inl ⟨rfl, rfl⟩
    rw [if_neg hgeneration] at h
    have hgen := Classical.not_not.mp hgeneration
    by_cases hok : (!ok) = true
    · rw [if_pos hok] at h
      cases h
      exact .inr ⟨hgen, .inl ⟨rfl, rfl⟩⟩
    rw [if_neg hok] at h
    by_cases huseful : max job.offset state.consumed < job.offset + job.len
    · rw [if_pos huseful] at h
      cases h
      exact .inr ⟨hgen, .inr (.inr ⟨rfl, _, _, rfl⟩)⟩
    · rw [if_neg huseful] at h
      cases h
      exact .inr ⟨hgen, .inr (.inl ⟨rfl, ⟨_, _, rfl⟩, by omega⟩)⟩
  next => cases h

section Worker

variable {ks : P → UInt64 → Nat → UInt8} {config : Config} {worker : CoreWorker P}
  {state : State P} {epochs : Epochs}

theorem CacheSound.takeJob (h : CacheSound ks config (some worker) state epochs)
    (hjob : worker.job = none) :
    CacheSound ks config (some (worker.takeJob state).1) (worker.takeJob state).2
      (epochs.observe state (worker.takeJob state).2 true) := by
  have hsound := h.worker worker rfl
  cases takeJob_cases worker state with
  | inl hidle =>
    obtain ⟨failed, hidle⟩ := hidle
    rw [hidle]
    have hcurrent : (epochs.observe state { state with failed } true).current = epochs.current :=
      observe_current_kept epochs rfl true
    refine ⟨?_, h.chunks, h.available, h.bounded, ?_, ?_⟩
    · rw [hcurrent]
      exact h.generation
    · rw [hcurrent]
      exact observe_chunks_of_le (Nat.le_refl _) true h.stem
    · intro w hw
      obtain rfl := Option.some.inj hw
      refine ⟨hsound.alignment, hsound.provider, ?_, ?_, ?_⟩
      · rw [hcurrent]
        exact hsound.active
      · intro job hsome
        rw [hjob] at hsome
        cases hsome
      · intro job hsome
        rw [hjob] at hsome
        cases hsome
  | inr htaken =>
    obtain ⟨job, scheduled, hgen, hnonce, htaken, hfits⟩ := htaken
    rw [htaken]
    have hcurrent : (epochs.observe state { state with scheduled, inFlight := some job }
        true).current = epochs.current := observe_current_kept epochs rfl true
    refine ⟨?_, h.chunks, h.available, ?_, ?_, ?_⟩
    · rw [hcurrent]
      exact h.generation
    · intro capacity hschedule
      have hpos := config_alignment_pos config
      rw [← hsound.alignment] at hpos ⊢
      exact hfits capacity hschedule hpos
    · rw [hcurrent]
      exact observe_chunks_of_le (Nat.le_refl _) true h.stem
    · intro w hw
      obtain rfl := Option.some.inj hw
      refine ⟨hsound.alignment, fun _ => ?_, ?_, ?_, ?_⟩
      · dsimp only
        split
        next hactive => exact hsound.provider hactive
        next => exact .inr rfl
      · rw [hcurrent]
        exact .inr (Nat.le_of_eq h.generation)
      · rintro _ ⟨rfl⟩
        rw [hcurrent, hgen]
        exact ⟨h.generation, Nat.le_refl _⟩
      · rintro _ ⟨rfl⟩ _
        exact ⟨hnonce, rfl, hgen.symm⟩

theorem CacheSound.publish (h : CacheSound ks config (some worker) state epochs)
    {after : CoreWorker P} {next : State P} {ok : Bool}
    (hstep : worker.publish ks state ok = some (after, next)) :
    CacheSound ks config (some after) next (epochs.observe state next false) := by
  have hsound := h.worker worker rfl
  obtain ⟨job, provider, hjob, hprovider, hcases⟩ := publish_cases hstep
  have hgeneration : next.generation = state.generation := by
    obtain ⟨-, rfl⟩ | ⟨-, ⟨-, rfl⟩ | ⟨-, ⟨_, _, rfl⟩, -⟩ | ⟨-, _, _, rfl⟩⟩ := hcases <;> rfl
  have hcurrent : (epochs.observe state next false).current = epochs.current :=
    observe_current_kept epochs hgeneration false
  have hworker : after.requestAlignment = worker.requestAlignment ∧ after.job = none ∧
      after.activeGeneration = worker.activeGeneration ∧
      (after.provider = none ∨ after.provider = worker.provider) := by
    obtain ⟨rfl, -⟩ | ⟨-, ⟨rfl, -⟩ | ⟨rfl, -⟩ | ⟨rfl, -⟩⟩ := hcases
    · exact ⟨rfl, rfl, rfl, .inr rfl⟩
    · exact ⟨rfl, rfl, rfl, .inl rfl⟩
    · exact ⟨rfl, rfl, rfl, .inr rfl⟩
    · exact ⟨rfl, rfl, rfl, .inr rfl⟩
  have hsame : next.provider = state.provider := by
    obtain ⟨-, rfl⟩ | ⟨-, ⟨-, rfl⟩ | ⟨-, ⟨_, _, rfl⟩, -⟩ | ⟨-, _, _, rfl⟩⟩ := hcases <;> rfl
  have hafter : WorkerSound config next (epochs.observe state next false) after := by
    obtain ⟨halignment, hidle, hactive, hkept⟩ := hworker
    refine ⟨halignment.trans hsound.alignment, ?_, ?_, ?_, ?_⟩
    · rw [hactive, hgeneration, hsame]
      intro hnow
      cases hkept with
      | inl hnone => exact .inl hnone
      | inr hkept => rw [hkept]; exact hsound.provider hnow
    · rw [hactive, hcurrent]
      cases hkept with
      | inl hnone => exact .inl hnone
      | inr hkept => rw [hkept]; exact hsound.active
    · intro job hsome
      rw [hidle] at hsome
      cases hsome
    · intro job hsome
      rw [hidle] at hsome
      cases hsome
  -- the job is of the present epoch where its result is looked at
  have hnow : state.generation = job.generation → epochs.taken = epochs.current ∧
      job.nonce = state.nonce ∧ state.inFlight = some job ∧ provider = state.provider := by
    intro hgen
    obtain ⟨htaken, -⟩ := hsound.taken job hjob
    have hepoch : epochs.taken = epochs.current := by
      rw [← htaken, ← hgen]
      exact h.generation
    obtain ⟨hnonce, hflight, hactive⟩ := hsound.current job hjob hepoch
    refine ⟨hepoch, hnonce, hflight, ?_⟩
    cases hsound.provider (hactive.trans hgen.symm) with
    | inl hnone => rw [hprovider] at hnone; cases hnone
    | inr hsome => rw [hprovider] at hsome; exact Option.some.inj hsome
  have hless : ∀ capacity, state.schedule = .continuous capacity →
      state.available < capacity + config.requestAlignment := by
    intro capacity hschedule
    have := h.bounded capacity hschedule
    omega
  refine ⟨by rw [hcurrent, hgeneration]; exact h.generation, ?_, ?_, ?_, ?_, ?_⟩
  · obtain ⟨-, rfl⟩ | ⟨hgen, ⟨-, rfl⟩ | ⟨-, ⟨_, _, rfl⟩, -⟩ | ⟨-, _, _, rfl⟩⟩ := hcases
    · exact h.chunks
    · exact h.chunks
    · exact h.chunks
    · obtain ⟨-, hnonce, -, hsameProvider⟩ := hnow hgen
      intro chunk hchunk
      cases List.mem_append.mp hchunk with
      | inl hold => exact h.chunks chunk hold
      | inr hnew =>
        obtain rfl := List.mem_singleton.mp hnew
        unfold HoldsKeystream
        rw [length_window, hnonce, hsameProvider]
  · obtain ⟨-, rfl⟩ | ⟨-, ⟨-, rfl⟩ | ⟨-, ⟨_, _, rfl⟩, -⟩ | ⟨-, _, _, rfl⟩⟩ := hcases
    · exact h.available
    · exact h.available
    · exact h.available
    · dsimp only
      rw [readyBytes_append, h.available]
      unfold readyBytes Chunk.ready Chunk.chunkEnd
      simp
  · intro capacity hschedule
    obtain ⟨-, rfl⟩ | ⟨hgen, ⟨-, rfl⟩ | ⟨-, ⟨_, _, rfl⟩, -⟩ | ⟨-, _, _, rfl⟩⟩ := hcases
    · exact h.bounded capacity hschedule
    · exact hless capacity hschedule
    · exact hless capacity hschedule
    · obtain ⟨-, -, hflight, -⟩ := hnow hgen
      have hbound := h.bounded capacity hschedule
      unfold pending at hbound ⊢
      rw [hflight] at hbound
      simp only [Option.map_some, Option.getD_some] at hbound
      simp only [Option.map_none, Option.getD_none]
      omega
  · rw [hcurrent]
    obtain ⟨-, rfl⟩ | ⟨hgen, ⟨-, rfl⟩ | ⟨-, ⟨_, _, rfl⟩, -⟩ | ⟨-, _, _, rfl⟩⟩ := hcases
    · exact observe_chunks_of_le (Nat.le_refl _) false h.stem
    · exact observe_chunks_of_le (Nat.le_refl _) false h.stem
    · exact observe_chunks_of_le (Nat.le_refl _) false h.stem
    · obtain ⟨hepoch, -, -, -⟩ := hnow hgen
      unfold Epochs.observe
      dsimp only
      rw [List.length_append, List.length_singleton, h.stem, hepoch, List.replicate_add,
        Nat.add_sub_cancel_left, Nat.sub_eq_zero_of_le (Nat.le_add_right _ 1), List.drop_zero]
  · intro w hw
    obtain rfl := Option.some.inj hw
    exact hafter

end Worker

end Catplay.Analysis.Prefetch
