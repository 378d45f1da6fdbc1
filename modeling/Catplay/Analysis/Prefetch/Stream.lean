import Catplay.Analysis.Prefetch.Generations

/-!
# Prefetching does not change the stream

Every call that succeeds puts the keystream in force on the consumer's data, and the calls to
`apply_next` follow one another (`prefetch_keeps_stream`), in any interleaving of the two
parties in which queued work is discarded fewer than `2 ^ 64` times.
-/

set_option autoImplicit false

namespace Catplay.Analysis.Prefetch

open Catplay.Library.Keystream Catplay.Library.Run Catplay.Model.Prefetch

variable {P : Type}

/-! ## The calls of the consumer -/

/-- What `apply` knows once it has looked into the cache. -/
structure LookupSound (ks : P → UInt64 → Nat → UInt8) (state : State P) (call : Lookup P)
    (request : Request P) : Prop where
  provider : call.provider = request.provider
  nonce : call.nonce = request.nonce
  offset : call.offset = request.offset
  data : call.data = request.data
  le : call.cachedLen ≤ call.data.length
  cover : PiecesCover (ks call.provider call.nonce) call.cached call.offset call.cachedLen
  next : request.next = true →
    call.tracked = true ∧ state.consumed = call.offset + call.data.length

/-- The call continues where the calls to `apply_next` before it had come to. -/
def Request.Continues (self : Request P) : Prop :=
  ∀ position, self.follows = some position → self.offset = position

/-- The call in progress, against what was in force when it began. -/
def CallSound (ks : P → UInt64 → Nat → UInt8) (state : State P) :
    Option (Call P) → Option (Request P) → Prop
  | none, _ => True
  | some (.entered nonce offset data), request =>
    ∃ r, request = some r ∧ r.provider = state.provider ∧ r.nonce = nonce ∧ r.offset = offset ∧
      r.data = data ∧ (r.next = true → nonce = state.nonce ∧ offset = state.consumed) ∧ r.Continues
  | some (.lookedUp call), request =>
    ∃ r, request = some r ∧ LookupSound ks state call r ∧ r.Continues

/-- What a call needs of the state only the consumer changes. -/
theorem CallSound.frame {ks : P → UInt64 → Nat → UInt8} {before after : State P}
    {call : Option (Call P)} {request : Option (Request P)}
    (h : CallSound ks before call request) (hprovider : after.provider = before.provider)
    (hnonce : after.nonce = before.nonce) (hconsumed : after.consumed = before.consumed) :
    CallSound ks after call request := by
  match call, h with
  | none, _ => trivial
  | some (.entered nonce offset data), h =>
    show ∃ r, _
    rw [hprovider, hnonce, hconsumed]
    exact h
  | some (.lookedUp call), ⟨r, hr, hsound, hcontinues⟩ =>
    refine ⟨r, hr, { hsound with next := ?_ }, hcontinues⟩
    rw [hconsumed]
    exact hsound.next

/-- The bytes are the data under the keystream that was in force. -/
def Applied.Faithful (ks : P → UInt64 → Nat → UInt8) (self : Applied P) : Prop :=
  self.output = xorBytes self.request.data
    (window (ks self.request.provider self.request.nonce) self.request.offset
      self.request.data.length)

/-- **Looking into the cache.** -/
theorem lookUp_spec {ks : P → UInt64 → Nat → UInt8} {state : State P}
    (hchunks : ∀ chunk ∈ state.chunks, HoldsKeystream (ks state.provider state.nonce) chunk)
    (havailable : state.available = readyBytes state.consumed state.chunks)
    {r : Request P} (hprovider : r.provider = state.provider)
    (hnext : r.next = true → r.nonce = state.nonce ∧ r.offset = state.consumed) :
    (Kept state (state.lookUp r.nonce r.offset r.data).1 ∨
        Restarted state (state.lookUp r.nonce r.offset r.data).1) ∧
      LookupSound ks (state.lookUp r.nonce r.offset r.data).1
        (state.lookUp r.nonce r.offset r.data).2 r := by
  unfold State.lookUp
  dsimp only
  by_cases htracked : (state.nonce == r.nonce) = true ∧ r.offset ≥ state.consumed
  · rw [if_pos htracked]
    have hsame : state.nonce = r.nonce := eq_of_beq htracked.1
    obtain ⟨hge, hle, hcover, hsuffix⟩ := @takeCached_spec _
      (r.offset + r.data.length) _ r.offset hchunks (Nat.le_add_right _ _)
    generalize takeCached (r.offset + r.data.length) state.chunks r.offset = taken at *
    have hrest : taken.2.1.dropWhile (fun chunk => chunk.chunkEnd ≤ r.offset + r.data.length) <:+
        state.chunks := (List.dropWhile_suffix _).trans hsuffix
    dsimp only
    have hlater : ∀ after : State P, after.provider = state.provider →
        after.consumed = r.offset + r.data.length →
        LookupSound ks after
          { nonce := r.nonce, offset := r.offset, data := r.data, cached := taken.1,
            provider := after.provider, cachedLen := taken.2.2 - r.offset,
            tracked := state.nonce == r.nonce } r := by
      intro after hafter hconsumed
      refine ⟨hafter.trans hprovider.symm, rfl, rfl, rfl, ?_, ?_, fun _ => ⟨htracked.1, hconsumed⟩⟩
      · dsimp only
        omega
      · dsimp only
        rw [hafter, ← hsame]
        exact hcover
    split
    next => exact ⟨.inr ⟨rfl, rfl, rfl, rfl⟩, hlater _ rfl rfl⟩
    next =>
      refine ⟨.inl ⟨rfl, rfl, rfl, rfl, rfl, hrest, rfl, ?_⟩, hlater _ rfl rfl⟩
      rw [havailable]
      exact readyBytes_le hrest (show state.consumed ≤ r.offset + r.data.length by omega)
  · rw [if_neg htracked]
    refine ⟨.inl ⟨rfl, rfl, rfl, rfl, rfl, List.suffix_refl _, havailable, Nat.le_refl _⟩,
      ⟨hprovider.symm, rfl, rfl, rfl, Nat.zero_le _, piecesCover_nil _ _, fun hr => ?_⟩⟩
    obtain ⟨hnonce, hoffset⟩ := hnext hr
    refine absurd ⟨?_, Nat.le_of_eq hoffset.symm⟩ htracked
    rw [hnonce]
    exact beq_self_eq_true _

/-- The suffix that is generated at once, and the cached pieces on what is before it. -/
theorem pieces_over_suffix {f : Nat → UInt8} {cached : List Piece} {offset len : Nat}
    {data : List UInt8} (hlen : len ≤ data.length) (hcover : PiecesCover f cached offset len) :
    xorPieces cached (data.take len ++
        xorBytes (data.drop len) (window f (offset + len) (data.drop len).length)) =
      xorBytes data (window f offset data.length) := by
  have hfront : (data.take len).length = len := List.length_take_of_le hlen
  rw [hcover _ (by rw [List.length_append, hfront]; omega),
    List.take_append_of_le_length (by omega), List.drop_append_of_le_length (by omega),
    List.take_of_length_le (by omega), List.drop_of_length_le (by omega), List.nil_append]
  have hwhole := xorBytes_window_append f offset (data.take len) (data.drop len)
  rw [List.take_append_drop, hfront] at hwhole
  exact hwhole.symm

/-- **Finishing the call.** -/
theorem finish_spec {ks : P → UInt64 → Nat → UInt8} {state : State P} {call : Lookup P}
    {r : Request P} (havailable : state.available = readyBytes state.consumed state.chunks)
    (hcall : LookupSound ks state call r) (ok : Bool) :
    (Kept state (state.finish ks call ok).1 ∨ Restarted state (state.finish ks call ok).1) ∧
      (∀ output result, (state.finish ks call ok).2 = .ok (output, result) →
        ({ request := r, output } : Applied P).Faithful ks ∧
          (r.next = true → (state.finish ks call ok).1.consumed = r.offset + r.data.length)) ∧
      ∀ error, (state.finish ks call ok).2 = .error error →
        r.next = true → (state.finish ks call ok).1.consumed = r.offset := by
  have hkept : ∀ cycle, Kept state { state with cycle } := fun _ =>
    ⟨rfl, rfl, rfl, rfl, rfl, List.suffix_refl _, havailable, Nat.le_refl _⟩
  unfold State.finish
  dsimp only
  by_cases hfails : call.data.length - call.cachedLen > 0 ∧ (!ok) = true
  · rw [if_pos hfails]
    by_cases htracked : call.tracked = true
    · rw [if_pos htracked]
      refine ⟨.inr ⟨rfl, rfl, rfl, rfl⟩, (fun _ _ h => by cases h), fun _ _ _ => hcall.offset⟩
    · rw [if_neg htracked]
      refine ⟨.inl (hkept state.cycle), (fun _ _ h => by cases h), fun _ _ hr => ?_⟩
      exact absurd (hcall.next hr).1 htracked
  · rw [if_neg hfails, pieces_over_suffix hcall.le hcall.cover]
    refine ⟨?_, ?_, fun _ h => by cases h⟩
    · split
      · exact .inl (hkept _)
      · exact .inl (hkept state.cycle)
    · intro output result hresult
      obtain ⟨rfl, -⟩ := Prod.mk.inj (Except.ok.inj hresult)
      refine ⟨?_, fun hr => ?_⟩
      · unfold Applied.Faithful
        rw [← hcall.provider, ← hcall.nonce, ← hcall.offset, ← hcall.data]
      · rw [← hcall.offset, ← hcall.data]
        split
        · exact (hcall.next hr).2
        · exact (hcall.next hr).2

/-! ## Steps -/

/-- What holds in every state of a run. -/
structure Sound (ks : P → UInt64 → Nat → UInt8) (t : Tracked P) : Prop where
  cache : CacheSound ks t.prefetch.config t.prefetch.worker t.prefetch.state t.epochs
  call : CallSound ks t.prefetch.state t.prefetch.call t.request
  leftOff : t.prefetch.call = none → ∀ position, t.leftOff = some position →
    t.prefetch.state.consumed = position
  apart : ∀ r, t.request = some r → r.next = false → t.leftOff = none
  log : ∀ applied ∈ t.log, applied.Faithful ks ∧ applied.request.Continues

theorem sound_new (ks : P → UInt64 → Nat → UInt8) (provider : P) (nonce : UInt64)
    (schedule : Schedule) (start : Nat) (config : Config) :
    Sound ks (.new (.new provider nonce schedule start config)) := by
  refine ⟨⟨rfl, ?_, rfl, ?_, rfl, ?_⟩, trivial, ?_, fun _ _ _ => rfl, ?_⟩
  · intro chunk hchunk
    cases hchunk
  · intro capacity _
    have := config_alignment_pos config
    show 0 + 0 < capacity + config.requestAlignment
    omega
  · intro w hw
    cases hw
  · intro _ position hposition
    cases hposition
  · intro applied happlied
    cases happlied

section Step

variable {ks : P → UInt64 → Nat → UInt8} {s : Tracked P}

/-- A step of the worker. -/
theorem Sound.worker_step (h : Sound ks s) {action : Action P} {now : KeystreamPrefetch P}
    (hrequest : s.requestOf action = s.request) (hleftOff : s.leftOffAt action = s.leftOff)
    (hcache : CacheSound ks now.config now.worker now.state
      (s.epochs.observe s.prefetch.state now.state (Tracked.takes action)))
    (hcall : now.call = s.prefetch.call) (hprovider : now.state.provider = s.prefetch.state.provider)
    (hnonce : now.state.nonce = s.prefetch.state.nonce)
    (hconsumed : now.state.consumed = s.prefetch.state.consumed) :
    Sound ks (s.observe action now none) := by
  rw [Tracked.observe_quiet s (fun _ hnone => by cases hnone), hrequest, hleftOff]
  refine ⟨hcache, ?_, ?_, h.apart, h.log⟩
  · show CallSound ks now.state now.call s.request
    rw [hcall]
    exact h.call.frame hprovider hnonce hconsumed
  · show now.call = none → ∀ position, s.leftOff = some position → now.state.consumed = position
    rw [hcall, hconsumed]
    exact h.leftOff

/-- The queue after a step of the consumer. -/
theorem Sound.consumer_cache (h : Sound ks s) {after : State P}
    (hmoved : Kept s.prefetch.state after ∨ Restarted s.prefetch.state after)
    (hepoch : (s.epochs.observe s.prefetch.state after false).current < 2 ^ 64) :
    CacheSound ks s.prefetch.config s.prefetch.worker after
      (s.epochs.observe s.prefetch.state after false) := by
  cases hmoved with
  | inl hkept => exact h.cache.kept hkept
  | inr hrestarted =>
    rw [observe_current_restarted _ hrestarted false] at hepoch
    exact h.cache.restarted hrestarted hepoch

theorem kept_refl (h : Sound ks s) : Kept s.prefetch.state s.prefetch.state :=
  ⟨rfl, rfl, rfl, rfl, rfl, List.suffix_refl _, h.cache.available, Nat.le_refl _⟩

/-- A step of the consumer between its calls to `apply`. -/
theorem Sound.between_calls (h : Sound ks s) {action : Action P} {after : State P}
    {reply : Option Reply} (hidle : s.prefetch.call = none)
    (hreply : ∀ result, reply ≠ some (.applied result)) (htakes : Tracked.takes action = false)
    (hmoved : Kept s.prefetch.state after ∨ Restarted s.prefetch.state after)
    (hleftOff : ∀ position, s.leftOffAt action = some position → after.consumed = position)
    (hrequest : s.requestOf action = s.request)
    (hapart : s.leftOffAt action = s.leftOff ∨ s.leftOffAt action = none)
    (hepoch : (s.observe action { s.prefetch with state := after } reply).epochs.current < 2 ^ 64) :
    Sound ks (s.observe action { s.prefetch with state := after } reply) := by
  rw [Tracked.observe_epochs, htakes] at hepoch
  rw [Tracked.observe_quiet s hreply, htakes]
  refine ⟨h.consumer_cache hmoved hepoch, ?_, fun _ => hleftOff, ?_, h.log⟩
  · show CallSound ks after s.prefetch.call (s.requestOf action)
    rw [hidle]
    trivial
  · intro r hr hnext
    dsimp only at hr ⊢
    cases hapart with
    | inl hsame => rw [hsame]; exact h.apart r (hrequest ▸ hr) hnext
    | inr hnone => exact hnone

/-- The consumer calls `apply`. -/
theorem Sound.enter (h : Sound ks s) {action : Action P} {r : Request P}
    (hrequest : s.requestOf action = some r) (htakes : Tracked.takes action = false)
    (hprovider : r.provider = s.prefetch.state.provider)
    (hnext : r.next = true →
      r.nonce = s.prefetch.state.nonce ∧ r.offset = s.prefetch.state.consumed)
    (hleftOff : r.next = false → s.leftOffAt action = none) (hcontinues : r.Continues)
    (hidle : s.prefetch.call = none) :
    Sound ks (s.observe action (s.prefetch.enter r.nonce r.offset r.data).1
      (s.prefetch.enter r.nonce r.offset r.data).2) := by
  have hcache := h.cache.kept (kept_refl h)
  unfold KeystreamPrefetch.enter
  by_cases hover : r.offset + r.data.length > u128Max
  · rw [if_pos hover]
    unfold Tracked.observe
    rw [hrequest, htakes]
    refine ⟨hcache, ?_, ?_, (fun _ hnone => by cases hnone), h.log⟩
    · show CallSound ks s.prefetch.state s.prefetch.call none
      rw [hidle]
      trivial
    · intro _ position hposition
      dsimp only at hposition ⊢
      split at hposition
      next hr => rw [← (hnext hr).2]; exact Option.some.inj hposition
      next hr => rw [hleftOff (Bool.eq_false_iff.mpr hr)] at hposition; cases hposition
  rw [if_neg hover]
  by_cases hempty : r.data.isEmpty = true
  · rw [if_pos hempty]
    have hnil : r.data = [] := List.isEmpty_iff.mp hempty
    unfold Tracked.observe
    rw [hrequest, htakes]
    refine ⟨hcache, ?_, ?_, (fun _ hnone => by cases hnone), ?_⟩
    · show CallSound ks s.prefetch.state s.prefetch.call none
      rw [hidle]
      trivial
    · intro _ position hposition
      dsimp only at hposition ⊢
      rw [hnil] at hposition
      split at hposition
      next hr => rw [← (hnext hr).2]; exact Option.some.inj hposition
      next hr => rw [hleftOff (Bool.eq_false_iff.mpr hr)] at hposition; cases hposition
    · intro applied happlied
      cases List.mem_append.mp happlied with
      | inl hold => exact h.log applied hold
      | inr hnew =>
        obtain rfl := List.mem_singleton.mp hnew
        refine ⟨?_, hcontinues⟩
        unfold Applied.Faithful
        dsimp only
        rw [hnil]
        rfl
  · rw [if_neg hempty, Tracked.observe_quiet s (fun _ hnone => by cases hnone), hrequest, htakes]
    refine ⟨hcache, ⟨r, rfl, hprovider, rfl, rfl, rfl, hnext, hcontinues⟩, ?_, ?_, h.log⟩
    · intro hsome
      cases hsome
    · rintro _ ⟨rfl⟩
      exact hleftOff

/-- The consumer looks into the cache. -/
theorem Sound.lookUp (h : Sound ks s) {nonce : UInt64} {offset : Nat} {data : List UInt8}
    (hcall : s.prefetch.call = some (.entered nonce offset data))
    (hepoch : (s.observe .lookUp
      { s.prefetch with
        state := (s.prefetch.state.lookUp nonce offset data).1
        call := some (.lookedUp (s.prefetch.state.lookUp nonce offset data).2) }
      none).epochs.current < 2 ^ 64) :
    Sound ks (s.observe .lookUp
      { s.prefetch with
        state := (s.prefetch.state.lookUp nonce offset data).1
        call := some (.lookedUp (s.prefetch.state.lookUp nonce offset data).2) } none) := by
  have hsound := h.call
  rw [hcall] at hsound
  obtain ⟨r, hr, hprovider, rfl, rfl, rfl, hnext, hcontinues⟩ := hsound
  obtain ⟨hmoved, hlookup⟩ := lookUp_spec h.cache.chunks h.cache.available hprovider hnext
  rw [Tracked.observe_epochs] at hepoch
  rw [Tracked.observe_quiet s (fun _ hnone => by cases hnone)]
  refine ⟨h.consumer_cache hmoved hepoch, ⟨r, hr, hlookup, hcontinues⟩, ?_, h.apart, h.log⟩
  intro hnone
  cases hnone

/-- The consumer comes to the end of its call. -/
theorem Sound.finish (h : Sound ks s) {call : Lookup P}
    (hcall : s.prefetch.call = some (.lookedUp call)) (ok : Bool)
    (hepoch : (s.observe (.finish ok)
      { s.prefetch with state := (s.prefetch.state.finish ks call ok).1, call := none }
      (some (.applied (s.prefetch.state.finish ks call ok).2))).epochs.current < 2 ^ 64) :
    Sound ks (s.observe (.finish ok)
      { s.prefetch with state := (s.prefetch.state.finish ks call ok).1, call := none }
      (some (.applied (s.prefetch.state.finish ks call ok).2))) := by
  have hsound := h.call
  rw [hcall] at hsound
  obtain ⟨r, hr, hlookup, hcontinues⟩ := hsound
  obtain ⟨hmoved, hok, herror⟩ := finish_spec h.cache.available hlookup ok
  rw [Tracked.observe_epochs] at hepoch
  have hcache := h.consumer_cache hmoved hepoch
  have hleft := h.apart r hr
  have hrequest : s.requestOf (.finish ok) = some r := hr
  revert hok herror
  cases hresult : (s.prefetch.state.finish ks call ok).2 with
  | error error =>
    intro _ herror
    unfold Tracked.observe
    rw [hrequest]
    refine ⟨hcache, trivial, ?_, (fun _ hnone => by cases hnone), h.log⟩
    intro _ position hposition
    dsimp only [Tracked.leftOffAt] at hposition ⊢
    split at hposition
    next hnext => rw [herror error rfl hnext]; exact Option.some.inj hposition
    next hnext => rw [hleft (Bool.eq_false_iff.mpr hnext)] at hposition; cases hposition
  | ok applied =>
    obtain ⟨output, result⟩ := applied
    intro hok _
    obtain ⟨hfaithful, hconsumed⟩ := hok output result rfl
    unfold Tracked.observe
    rw [hrequest]
    refine ⟨hcache, trivial, ?_, (fun _ hnone => by cases hnone), ?_⟩
    · intro _ position hposition
      dsimp only [Tracked.leftOffAt] at hposition ⊢
      split at hposition
      next hnext => rw [hconsumed hnext]; exact Option.some.inj hposition
      next hnext => rw [hleft (Bool.eq_false_iff.mpr hnext)] at hposition; cases hposition
    · intro applied happlied
      cases List.mem_append.mp happlied with
      | inl hold => exact h.log applied hold
      | inr hnew =>
        obtain rfl := List.mem_singleton.mp hnew
        exact ⟨hfaithful, hcontinues⟩

theorem takeJob_frame (worker : CoreWorker P) (state : State P) :
    (worker.takeJob state).2.provider = state.provider ∧
      (worker.takeJob state).2.nonce = state.nonce ∧
      (worker.takeJob state).2.consumed = state.consumed := by
  obtain ⟨failed, hidle⟩ | ⟨job, scheduled, -, -, htaken, -⟩ := takeJob_cases worker state
  · rw [hidle]
    exact ⟨rfl, rfl, rfl⟩
  · rw [htaken]
    exact ⟨rfl, rfl, rfl⟩

theorem publish_frame {worker after : CoreWorker P} {state next : State P} {ok : Bool}
    (h : worker.publish ks state ok = some (after, next)) :
    next.provider = state.provider ∧ next.nonce = state.nonce ∧
      next.consumed = state.consumed := by
  obtain ⟨job, provider, -, -, hcases⟩ := publish_cases h
  obtain ⟨-, rfl⟩ | ⟨-, ⟨-, rfl⟩ | ⟨-, ⟨_, _, rfl⟩, -⟩ | ⟨-, _, _, rfl⟩⟩ := hcases <;>
    exact ⟨rfl, rfl, rfl⟩

/-- **Each step**, as long as the generation counter has not come round. -/
theorem Sound.step (h : Sound ks s) {action : Action P} {t : Tracked P}
    (hstep : s.step ks action = some t) (hepoch : t.epochs.current < 2 ^ 64) : Sound ks t := by
  obtain ⟨now, reply, hnow, rfl⟩ := Tracked.step_eq_some.mp hstep
  unfold KeystreamPrefetch.step at hnow
  split at hnow
  case h_1 hworker hidle =>
    cases hnow
    refine h.worker_step rfl rfl ?_ rfl rfl rfl rfl
    have hcache := h.cache.kept (kept_refl h)
    refine { hcache with worker := ?_ }
    rintro _ ⟨rfl⟩
    refine ⟨rfl, fun _ => .inl rfl, .inl rfl, ?_, ?_⟩
    · intro job hjob
      cases hjob
    · intro job hjob
      cases hjob
  case h_2 worker hworker =>
    split at hnow
    next => cases hnow
    next hjob =>
      cases hnow
      obtain ⟨hprovider, hnonce, hconsumed⟩ := takeJob_frame worker s.prefetch.state
      have hcache := h.cache
      rw [hworker] at hcache
      exact h.worker_step rfl rfl (hcache.takeJob (Option.not_isSome_iff_eq_none.mp hjob)) rfl
        hprovider hnonce hconsumed
  case h_3 ok worker hworker =>
    obtain ⟨⟨after, next⟩, hpublish, hnow⟩ := Option.map_eq_some_iff.mp hnow
    cases hnow
    obtain ⟨hprovider, hnonce, hconsumed⟩ := publish_frame hpublish
    have hcache := h.cache
    rw [hworker] at hcache
    exact h.worker_step rfl rfl (hcache.publish hpublish) rfl hprovider hnonce hconsumed
  case h_4 nonce offset data hidle =>
    have hentered : Sound ks (s.observe (.apply nonce offset data)
        (s.prefetch.enter nonce offset data).1 (s.prefetch.enter nonce offset data).2) :=
      h.enter (r := ⟨s.prefetch.state.provider, nonce, offset, data, false, none⟩) rfl rfl rfl
        (fun hnext => by cases hnext) (fun _ => rfl) (fun _ hnone => by cases hnone) hidle
    rw [Option.some.inj hnow] at hentered
    exact hentered
  case h_5 data hidle =>
    have hentered : Sound ks (s.observe (.applyNext data)
        (s.prefetch.enter s.prefetch.state.nonce s.prefetch.state.consumed data).1
        (s.prefetch.enter s.prefetch.state.nonce s.prefetch.state.consumed data).2) :=
      h.enter (r := ⟨s.prefetch.state.provider, s.prefetch.state.nonce,
        s.prefetch.state.consumed, data, true, s.leftOff⟩) rfl rfl rfl (fun _ => ⟨rfl, rfl⟩)
        (fun hnext => by cases hnext) (h.leftOff hidle) hidle
    rw [Option.some.inj hnow] at hentered
    exact hentered
  case h_6 nonce offset data hcall =>
    cases hnow
    exact h.lookUp hcall hepoch
  case h_7 ok call hcall =>
    cases hnow
    exact h.finish hcall ok hepoch
  case h_8 provider nonce schedule start hidle =>
    cases hnow
    exact h.between_calls hidle (fun _ hreply => by cases hreply) rfl
      (.inr ⟨rfl, rfl, rfl, rfl⟩) (fun _ hnone => by cases hnone) rfl (.inr rfl) hepoch
  case h_9 schedule hidle =>
    cases hnow
    exact h.between_calls hidle (fun _ hreply => by cases hreply) rfl
      (.inr ⟨rfl, rfl, rfl, rfl⟩) (h.leftOff hidle) rfl (.inl rfl) hepoch
  case h_10 hidle =>
    cases hnow
    exact h.between_calls hidle (fun _ hreply => by cases hreply) rfl
      (.inl { kept_refl h with }) (h.leftOff hidle) rfl (.inl rfl) hepoch
  case h_11 hidle =>
    cases hnow
    exact h.between_calls hidle (fun _ hreply => by cases hreply) rfl
      (.inl { kept_refl h with }) (h.leftOff hidle) rfl (.inl rfl) hepoch
  case h_12 => cases hnow

/-- Epochs are only ever added. -/
theorem le_epoch_step {action : Action P} {t : Tracked P} (hstep : s.step ks action = some t) :
    s.epochs.current ≤ t.epochs.current := by
  obtain ⟨now, reply, -, rfl⟩ := Tracked.step_eq_some.mp hstep
  rw [Tracked.observe_epochs]
  exact le_observe_current _ _

/-- The builder's values stay. -/
theorem config_step {action : Action P} {t : Tracked P} (hstep : s.step ks action = some t) :
    t.prefetch.config = s.prefetch.config := by
  obtain ⟨now, reply, hnow, rfl⟩ := Tracked.step_eq_some.mp hstep
  rw [Tracked.observe_prefetch]
  have henter : ∀ nonce offset data,
      (s.prefetch.enter nonce offset data).1.config = s.prefetch.config := by
    intro nonce offset data
    unfold KeystreamPrefetch.enter
    split
    · rfl
    · split <;> rfl
  unfold KeystreamPrefetch.step at hnow
  split at hnow
  case h_2 =>
    split at hnow
    next => cases hnow
    next => cases hnow; rfl
  case h_3 =>
    obtain ⟨_, -, hnow⟩ := Option.map_eq_some_iff.mp hnow
    cases hnow
    rfl
  case h_4 nonce offset data _ =>
    have := henter nonce offset data
    rw [Option.some.inj hnow] at this
    exact this
  case h_5 data _ =>
    have := henter s.prefetch.state.nonce s.prefetch.state.consumed data
    rw [Option.some.inj hnow] at this
    exact this
  case h_12 => cases hnow
  all_goals
    cases hnow
    rfl

end Step

/-! ## Runs -/

/-- **Every run** in which the generation counter has not come round. -/
theorem sound_run {ks : P → UInt64 → Nat → UInt8} {s t : Tracked P} {actions : List (Action P)}
    (hs : Sound ks s) (hrun : run (Tracked.step ks) s actions = some t)
    (hepoch : t.epochs.current < 2 ^ 64) : Sound ks t := by
  refine run_invariant (fun u => u.epochs.current < 2 ^ 64 → Sound ks u) ?_ (fun _ => hs) hrun
    hepoch
  intro u action v hu hstep hv
  have hle := le_epoch_step hstep
  exact (hu (by omega)).step hstep hv

/-- **The stream is kept.** Whatever order the worker's locks and the consumer's calls come in,
and as long as queued work was discarded fewer than `2 ^ 64` times: each successful call gave
its data under the keystream in force, each call to `apply_next` took up where the one before
had come to, all that is queued was asked for since work was last discarded, and a continuous
schedule has fewer bytes ahead of the consumer than its capacity and one alignment. -/
theorem prefetch_keeps_stream (ks : P → UInt64 → Nat → UInt8) (provider : P) (nonce : UInt64)
    (schedule : Schedule) (start : Nat) (config : Config) {actions : List (Action P)}
    {t : Tracked P}
    (hrun : run (Tracked.step ks) (.new (.new provider nonce schedule start config)) actions =
      some t)
    (hepoch : t.epochs.current < 2 ^ 64) :
    (∀ applied ∈ t.log,
      applied.output = xorBytes applied.request.data
        (window (ks applied.request.provider applied.request.nonce) applied.request.offset
          applied.request.data.length) ∧
      ∀ position, applied.request.follows = some position →
        applied.request.offset = position) ∧
    t.epochs.chunks = List.replicate t.prefetch.state.chunks.length t.epochs.current ∧
    ∀ capacity, t.prefetch.state.schedule = .continuous capacity →
      (t.prefetch.state.chunks.map (Chunk.ready t.prefetch.state.consumed)).sum ≤
        capacity + config.requestAlignment - 1 := by
  have hsound := sound_run (sound_new ks provider nonce schedule start config) hrun hepoch
  have hconfig : t.prefetch.config = config :=
    run_invariant (fun u => u.prefetch.config = config)
      (fun u action v hu hstep => (config_step hstep).trans hu) rfl hrun
  refine ⟨hsound.log, hsound.cache.stem, ?_⟩
  intro capacity hschedule
  have hbound := hsound.cache.bounded capacity hschedule
  rw [hsound.cache.available, hconfig] at hbound
  unfold readyBytes at hbound
  omega

/-- A consumer that overtakes a job, takes its cached rest, and starts anew under another key
while the next job is out. -/
theorem prefetch_keeps_stream_overtaken :
    ∃ t, run (Tracked.step fun key nonce position => key + nonce.toUInt8 + UInt8.ofNat position)
        (.new (.new 7 1 (.finite 6) 0 (.new 4)))
        [.startWorker, .takeJob, .applyNext [0], .lookUp, .publish true, .finish true,
          .applyNext [0, 0], .takeJob, .lookUp, .finish true, .reset 9 2 (.finite 6) 0,
          .publish true, .applyNext [0], .lookUp, .finish true] = some t ∧
      t.log.map Applied.output = [[8], [9, 10], [11]] ∧
      (∀ applied ∈ t.log,
        applied.output = xorBytes applied.request.data
          (window (fun position => applied.request.provider + applied.request.nonce.toUInt8 +
            UInt8.ofNat position) applied.request.offset applied.request.data.length) ∧
        ∀ position, applied.request.follows = some position →
          applied.request.offset = position) ∧
      t.epochs.chunks = List.replicate t.prefetch.state.chunks.length t.epochs.current ∧
      ∀ capacity, t.prefetch.state.schedule = .continuous capacity →
        (t.prefetch.state.chunks.map (Chunk.ready t.prefetch.state.consumed)).sum ≤
          capacity + (Config.new 4).requestAlignment - 1 := by
  refine ⟨_, (Option.some_get (by decide)).symm, by decide,
    prefetch_keeps_stream _ 7 1 _ 0 (.new 4) (Option.some_get (by decide)).symm
      (by decide)⟩

/-! ## Where the bounds are -/

/-- The prefetch of a key of zeros, started anew under a key of ones, with the job of the
former key still out. -/
def outdated (generation : UInt64) (epoch : Nat) : Tracked Bool where
  prefetch :=
    { state := { State.new true 0 (.finite 1) 0 with generation }
      worker := some
        { chunkSize := 1
          requestAlignment := 1
          provider := some false
          activeGeneration := 0
          job := some { generation := 0, nonce := 0, offset := 0, len := 1 } }
      config := .new 1
      call := none }
  epochs := { current := epoch, taken := 0, chunks := [] }
  request := none
  leftOff := none
  log := []

/-- The bytes of either key. -/
def onesOrZeros (key : Bool) (_ : UInt64) (_ : Nat) : UInt8 := if key then 1 else 0

theorem step_outdated (generation : UInt64) (epoch : Nat) :
    (outdated generation epoch).step onesOrZeros (.reset true 0 (.finite 1) 0) =
      some (outdated (generation + 1) (epoch + 1)) := by
  show some (Tracked.mk _
    (Epochs.mk (if generation + 1 = generation then epoch else epoch + 1) 0 []) none none []) = _
  rw [if_neg (generation_succ_ne generation)]
  rfl

theorem run_outdated (n : Nat) (generation : UInt64) (epoch : Nat) :
    run (Tracked.step onesOrZeros) (outdated generation epoch)
        (List.replicate n (.reset true 0 (.finite 1) 0)) =
      some (outdated (generation + UInt64.ofNat n) (epoch + n)) := by
  induction n generalizing generation epoch with
  | zero =>
    rw [Nat.add_zero, show UInt64.ofNat 0 = 0 from rfl, UInt64.add_zero]
    rfl
  | succ n ih =>
    rw [List.replicate_succ]
    apply run_cons_eq_some.mpr
    refine ⟨outdated (generation + 1) (epoch + 1), step_outdated generation epoch, ?_⟩
    rw [ih, UInt64.ofNat_add, UInt64.add_assoc, UInt64.add_comm 1, Nat.add_assoc, Nat.add_comm 1]
    rfl

theorem outdated_is_used :
    ∃ t, run (Tracked.step onesOrZeros) (outdated 0 (2 ^ 64))
        [.publish true, .applyNext [0], .lookUp, .finish true] = some t ∧
      ∃ applied ∈ t.log,
        applied.output ≠ xorBytes applied.request.data
          (window (onesOrZeros applied.request.provider applied.request.nonce)
            applied.request.offset applied.request.data.length) :=
  ⟨_, (Option.some_get (by decide)).symm, by decide⟩

/-- A continuous schedule of sixteen bytes has seventeen ahead of the consumer, and after
`2 ^ 64` restarts the job of a former key is taken for a present one. -/
theorem prefetch_overshoots_and_comes_round :
    (∃ config actions t,
      run (Tracked.step onesOrZeros) (.new (.new true 0 (.continuous 16) 0 config)) actions =
          some t ∧
        t.prefetch.state.schedule = .continuous 16 ∧
        CoreWorker.divCeil 16 config.requestAlignment * config.requestAlignment <
          (t.prefetch.state.chunks.map (Chunk.ready t.prefetch.state.consumed)).sum) ∧
    ∃ config actions t,
      run (Tracked.step onesOrZeros) (.new (.new false 0 (.finite 1) 0 config)) actions = some t ∧
        ∃ applied ∈ t.log,
          applied.output ≠ xorBytes applied.request.data
            (window (onesOrZeros applied.request.provider applied.request.nonce)
              applied.request.offset applied.request.data.length) := by
  constructor
  · refine ⟨(Config.new 16).withRequestAlignment 16 ⟨4, rfl⟩ (Nat.dvd_refl 16),
      [.startWorker, .takeJob, .publish true, .applyNext (List.replicate 15 0), .lookUp,
        .finish true, .takeJob, .publish true], _,
      (Option.some_get (by decide)).symm, by decide, by decide⟩
  · obtain ⟨t, hrun, hlog⟩ := outdated_is_used
    refine ⟨.new 1, [.startWorker, .takeJob, .reset true 0 (.finite 1) 0] ++
      (List.replicate (2 ^ 64 - 1) (.reset true 0 (.finite 1) 0) ++
        [.publish true, .applyNext [0], .lookUp, .finish true]), t, ?_, hlog⟩
    exact run_append.mpr ⟨outdated 1 1, rfl, run_append.mpr ⟨_, run_outdated _ 1 1, hrun⟩⟩

end Catplay.Analysis.Prefetch
