import Catplay.Analysis.Aes.Continuous

/-!
# A provider at any position

The backend of a provider counts from the block at which it was opened. Its stream is the one of
the provider from that block on, so the place where it stands in its own is a place in the
provider's (`Stands`), and what it gives there is the stretch asked for.
-/

set_option autoImplicit false

namespace Catplay.Analysis.Aes

open Catplay.Library.Checked (Stop)
open Catplay.Library.CounterMode
open Catplay.Library.Effects
open Catplay.Library.Keystream
open Catplay.Model.Aes
open Catplay.Model.Aes.AfAlgCtrAes128

variable {K : Type} {aes : K → BitVec 128 → Nat → UInt8} {kernel : Kernel}
variable {key : K} {iv : BitVec 128}

/-- A backend stands at byte `pos` of the provider's stream. -/
def Stands (aes : K → BitVec 128 → Nat → UInt8) (key : K) (iv : BitVec 128) (pos : Nat)
    (backend : AfAlgCtrAes128 K) : Prop :=
  ∃ base q, aesBlock * base + q = pos ∧ At aes key (iv + BitVec.ofNat 128 base) q backend

/-- The kernel took some request of `crypt_slices` in part. -/
def SomeRefused (kernel : Kernel) (e : Stop AfAlgError) : Prop :=
  e = .error .shortSend ∧ ∃ fd n, kernel.acceptedSlices fd n < aesBlock

theorem RefusedSlices.some {e : Stop AfAlgError} {s : AfAlgCtrAes128 K}
    (h : RefusedSlices kernel e s) : SomeRefused kernel e := by
  obtain ⟨he, n, -, hn⟩ := h
  exact ⟨he, s.opFd, n, hn⟩

/-- **A call to a backend.** -/
theorem stands_perform (haccepting : Accepting kernel) {pos : Nat} {backend : AfAlgCtrAes128 K}
    (h : Stands aes key iv pos backend) (call : CtrCall)
    (hfits : pos + call.input.length < 2 ^ 128) :
    Ends (perform aes kernel call) backend
      (fun output t => output = stretch aes key iv pos call ∧ Stands aes key iv (nextPos pos call) t)
      (fun e _ => SomeRefused kernel e) := by
  obtain ⟨base, q, rfl, hat⟩ := h
  apply (perform_gives haccepting hat call (by omega)).mono
  · rintro _ t ⟨rfl, ht⟩
    refine ⟨?_, base, q + call.input.length, (Nat.add_assoc _ _ _).symm, ht⟩
    unfold stretch keystream
    rw [window_counterStream_add (aes key) (by decide : 0 < aesBlock)]
  · intro e t he
    exact he.some

/-- **A new backend.** -/
theorem positionedBackend_stands (haccepting : Accepting kernel) (opFd : Nat) {position : Nat}
    (hposition : position < 2 ^ 128) :
    match positionedBackend (kernelEngine aes kernel opFd) key iv position with
    | .ok backend => Stands aes key iv position backend
    | .error e => SomeRefused kernel e := by
  have hnew : Stands aes key iv (aesBlock * (position / aesBlock))
      (tryNew aes kernel opFd key (iv + BitVec.ofNat 128 (position / 16))) :=
    ⟨position / aesBlock, 0, rfl, at_tryNew opFd⟩
  have hsum : aesBlock * (position / aesBlock) + position % 16 = position :=
    Nat.div_add_mod position aesBlock
  unfold positionedBackend kernelEngine
  dsimp only
  generalize tryNew aes kernel opFd key (iv + BitVec.ofNat 128 (position / 16)) = backend at hnew ⊢
  by_cases hskip : position % 16 = 0
  · rw [if_neg (not_not.mpr hskip)]
    rw [hskip, Nat.add_zero] at hsum
    rwa [hsum] at hnew
  · rw [if_pos hskip]
    have hlen : (CtrCall.apply (zeros (position % 16))).input.length = position % 16 :=
      length_zeros (position % 16)
    have hends := stands_perform haccepting hnew (.apply (zeros (position % 16)))
      (by rw [hlen, hsum]; exact hposition)
    unfold Ends perform at hends
    dsimp only at hends
    cases hrun : tryApplyKeystream aes kernel (zeros (position % 16)) backend with
    | ok output t =>
      rw [hrun] at hends
      have hstands := hends.2
      unfold nextPos at hstands
      rwa [hlen, hsum] at hstands
    | error e t =>
      rw [hrun] at hends
      exact hends

/-! ## Calls to the provider -/

/-- A provider keeps its key and counter, and its backend stands where the last call ended. -/
structure Provides (aes : K → BitVec 128 → Nat → UInt8) (key : K) (iv : BitVec 128)
    (provider : AesProvider K (AfAlgCtrAes128 K)) : Prop where
  key_eq : provider.key = key
  iv_eq : provider.iv = iv
  backend : ∀ backend, provider.backend = some backend →
    Stands aes key iv provider.nextOffset backend

theorem provides_new : Provides aes key iv (AesProvider.new key iv) where
  key_eq := rfl
  iv_eq := rfl
  backend backend h := by cases h

/-- **A backend at the offset.** -/
theorem backendAt_ends (haccepting : Accepting kernel) (opFd : Nat) {offset : Nat}
    (hoffset : offset < 2 ^ 128) {provider : AesProvider K (AfAlgCtrAes128 K)}
    (h : Provides aes key iv provider) :
    Ends (AesProvider.backendAt (kernelEngine aes kernel opFd) offset) provider
      (fun _ t => t.key = key ∧ t.iv = iv ∧
        ∃ backend, t.backend = some backend ∧ Stands aes key iv offset backend)
      (fun e _ => SomeRefused kernel e) := by
  unfold AesProvider.backendAt
  apply ends_get_bind
  apply ends_ite
  · intro _
    have hnew := @positionedBackend_stands K aes kernel key iv haccepting opFd offset hoffset
    rw [h.key_eq, h.iv_eq]
    cases hbackend : positionedBackend (kernelEngine aes kernel opFd) key iv offset with
    | ok backend =>
      rw [hbackend] at hnew
      exact ⟨rfl, rfl, backend, rfl, hnew⟩
    | error e =>
      rw [hbackend] at hnew
      exact ends_throw hnew
  · intro hthere
    obtain ⟨hsome, hoffset⟩ := not_or.mp hthere
    obtain rfl := not_not.mp hoffset
    cases hbackend : provider.backend with
    | none =>
      rw [hbackend] at hsome
      exact absurd rfl hsome
    | some backend => exact ends_pure ⟨h.key_eq, h.iv_eq, backend, hbackend, h.backend backend hbackend⟩

/-- A call to a provider; `opFd` is the socket that `accept` would give. -/
structure ProviderCall where
  kind : CtrCall
  offset : Nat
  opFd : Nat
  deriving DecidableEq, Repr

def performAt (aes : K → BitVec 128 → Nat → UInt8) (kernel : Kernel) (there : ProviderCall) :
    EStateM (Stop AfAlgError) (AesProvider K (AfAlgCtrAes128 K)) (List UInt8) :=
  match there.kind with
  | .apply data =>
    AesProvider.applyKeystream (kernelEngine aes kernel there.opFd) there.offset data
  | .generate len =>
    AesProvider.generateKeystream (kernelEngine aes kernel there.opFd) there.offset len

/-- The three steps of either call. -/
theorem serve_ends (haccepting : Accepting kernel)
    {provider : AesProvider K (AfAlgCtrAes128 K)} (h : Provides aes key iv provider)
    (there : ProviderCall) (hfits : there.offset + there.kind.input.length < 2 ^ 128) :
    Ends (do
        AesProvider.backendAt (kernelEngine aes kernel there.opFd) there.offset
        let output ← AesProvider.onBackend (perform aes kernel there.kind)
        AesProvider.setNextOffset (there.offset + there.kind.input.length)
        pure output) provider
      (fun output t => output = stretch aes key iv there.offset there.kind ∧
        Provides aes key iv t)
      (fun e _ => SomeRefused kernel e) := by
  apply (backendAt_ends haccepting there.opFd (by omega) h).bind
  rintro _ t ⟨hkey, hiv, backend, hbackend, hstands⟩
  have hcall : Ends (AesProvider.onBackend (perform aes kernel there.kind)) t
      (fun output u => output = stretch aes key iv there.offset there.kind ∧
        u.key = key ∧ u.iv = iv ∧ ∃ later, u.backend = some later ∧
          Stands aes key iv (there.offset + there.kind.input.length) later)
      (fun e _ => SomeRefused kernel e) := by
    have hends := stands_perform haccepting hstands there.kind hfits
    unfold Ends at hends ⊢
    unfold AesProvider.onBackend
    rw [hbackend]
    dsimp only
    cases hrun : perform aes kernel there.kind backend with
    | ok output later =>
      rw [hrun] at hends
      exact ⟨hends.1, hkey, hiv, later, rfl, hends.2⟩
    | error e later =>
      rw [hrun] at hends
      exact hends
  apply hcall.bind
  rintro _ u ⟨rfl, hkey', hiv', later, hlater, hstands'⟩
  unfold AesProvider.setNextOffset
  rw [if_pos hfits]
  apply ends_modify_bind
  refine ends_pure ⟨rfl, hkey', hiv', ?_⟩
  intro other hother
  obtain rfl := Option.some.inj (hlater.symm.trans hother)
  exact hstands'

theorem performAt_ends (haccepting : Accepting kernel)
    {provider : AesProvider K (AfAlgCtrAes128 K)} (h : Provides aes key iv provider)
    (there : ProviderCall) (hfits : there.offset + there.kind.input.length < 2 ^ 128) :
    Ends (performAt aes kernel there) provider
      (fun output t => output = stretch aes key iv there.offset there.kind ∧
        Provides aes key iv t)
      (fun e _ => SomeRefused kernel e) := by
  obtain ⟨kind, offset, opFd⟩ := there
  cases kind with
  | apply data => exact serve_ends haccepting h ⟨.apply data, offset, opFd⟩ hfits
  | generate len =>
    have hserve := serve_ends haccepting h ⟨.generate len, offset, opFd⟩ hfits
    unfold CtrCall.input at hserve
    dsimp only at hserve
    rw [length_zeros] at hserve
    exact hserve

/-- **A session of calls to a provider.** Each gives the stretch at its own offset; a session that
stops before its end stops because the kernel took a request of `crypt_slices` in part. -/
def Slices (aes : K → BitVec 128 → Nat → UInt8) (kernel : Kernel) (key : K) (iv : BitVec 128)
    (calls : List ProviderCall) : Prop :=
  let slices := calls.map fun there => stretch aes key iv there.offset there.kind
  let session := untilFailure (performAt aes kernel) calls (AesProvider.new key iv)
  match session.2 with
  | .ok _ _ => session.1 = slices
  | .error e _ => session.1 <+: slices ∧ SomeRefused kernel e

theorem slices_of_accepting (haccepting : Accepting kernel) (key : K) (iv : BitVec 128)
    {calls : List ProviderCall}
    (hfits : ∀ there ∈ calls, there.offset + there.kind.input.length < 2 ^ 128) :
    Slices aes kernel key iv calls := by
  have hstep : ∀ there provider, Provides aes key iv provider →
      there.offset + there.kind.input.length < 2 ^ 128 →
      Ends (performAt aes kernel there) provider
        (fun output t => output = stretch aes key iv there.offset there.kind ∧
          Provides aes key iv t)
        (fun e _ => SomeRefused kernel e) :=
    fun there provider h hfits => performAt_ends haccepting h there hfits
  have hrun := untilFailure_map hstep hfits (@provides_new K aes key iv)
  unfold Slices
  dsimp only
  cases hend : (untilFailure (performAt aes kernel) calls (AesProvider.new key iv)).2 with
  | ok u provider =>
    rw [hend] at hrun
    exact hrun.1
  | error e provider =>
    rw [hend] at hrun
    exact hrun

/-- **One continuous stream**, from an engine and from a provider at any positions, whatever the
kernel takes of its requests: only a request of `crypt_slices` it takes in part ends a session. -/
theorem continuous_stream (haccepting : Accepting kernel) (key : K) (iv : BitVec 128) :
    (∀ opFd calls, (inputs calls).length < 2 ^ 128 → Continuous aes kernel opFd key iv calls) ∧
      ∀ calls : List ProviderCall,
        (∀ there ∈ calls, there.offset + there.kind.input.length < 2 ^ 128) →
          Slices aes kernel key iv calls :=
  ⟨fun opFd _ hfits => continuous_of_accepting haccepting opFd key iv hfits,
    fun _ hfits => slices_of_accepting haccepting key iv hfits⟩

/-- Key `()` and a cipher that counts, on a kernel that takes all it is offered. -/
theorem continuous_stream_taking :
    let kernel : Kernel := ⟨4096, fun _ => true, fun _ _ => 65536, fun _ _ => 16⟩
    let aes : Unit → BitVec 128 → Nat → UInt8 := fun _ counter j => (counter.toNat + j).toUInt8
    Continuous aes kernel 3 () 0 [.generate 5, .apply (zeros 40)] ∧
      Slices aes kernel () 0 [⟨.apply (zeros 9), 21, 3⟩] := by
  intro kernel aes
  have hboth := @continuous_stream Unit aes kernel (fun _ _ => Nat.succ_pos 65535) () 0
  exact ⟨hboth.1 3 [.generate 5, .apply (zeros 40)] (by decide),
    hboth.2 [⟨.apply (zeros 9), 21, 3⟩] (by decide)⟩

/-- A kernel that takes one byte of each request ends a session of one call. -/
theorem bytewise_kernel_stops :
    let kernel : Kernel := ⟨4096, fun _ => false, fun _ _ => 1, fun _ _ => 1⟩
    let aes : Unit → BitVec 128 → Nat → UInt8 := fun _ _ _ => 0
    Accepting kernel ∧ (∀ fd n, 1 ≤ kernel.acceptedSlices fd n) ∧
      (inputs [.apply [7]]).length < 2 ^ 128 ∧
      ¬∃ t, untilFailure (perform aes kernel) [.apply [7]] (tryNew aes kernel 3 () 0) =
        ([xorBytes [7] (window (keystream aes () 0) 0 1)], .ok () t) := by
  refine ⟨fun _ _ => Nat.le_refl 1, fun _ _ => Nat.le_refl 1, by decide, ?_⟩
  rintro ⟨t, ht⟩
  have hstopped : (untilFailure (perform (fun (_ : Unit) _ _ => 0)
      ⟨4096, fun _ => false, fun _ _ => 1, fun _ _ => 1⟩) [.apply [7]]
      (tryNew (fun (_ : Unit) _ _ => 0) ⟨4096, fun _ => false, fun _ _ => 1, fun _ _ => 1⟩
        3 () 0)).1 = [] := by
    decide
  rw [ht] at hstopped
  cases hstopped

end Catplay.Analysis.Aes
