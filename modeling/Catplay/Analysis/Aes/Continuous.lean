import Catplay.Analysis.Aes.Position

/-!
# One continuous stream

Calls of both kinds, one after another until the first that fails. Each of them gives its input
under the stretch of the keystream behind the ones before (`apply_ends`, `generate_ends`), so
together they give all of the input under one stretch from the start. A provider that goes anywhere
gives the stretch at the place it is asked for: the position of its backend within the stream of the
backend's own counter is the position asked for.
-/

set_option autoImplicit false

namespace Catplay.Analysis.Aes

open Catplay.Library.Checked (Stop)
open Catplay.Library.Effects
open Catplay.Library.Keystream
open Catplay.Model.Aes
open Catplay.Model.Aes.AfAlgCtrAes128

variable {K : Type} {aes : K → BitVec 128 → Nat → UInt8} {kernel : Kernel}
variable {key : K} {iv : BitVec 128} {pos : Nat} {s : AfAlgCtrAes128 K}

/-- A call at `pos` gives its input under the stretch there, and the engine stands behind it. -/
def Gives (aes : K → BitVec 128 → Nat → UInt8) (kernel : Kernel) (key : K) (iv : BitVec 128)
    (pos : Nat) (call : Action K (List UInt8)) (input : List UInt8) (s : AfAlgCtrAes128 K) : Prop :=
  Ends call s
    (fun output t => output = xorBytes input (window (keystream aes key iv) pos input.length) ∧
      At aes key iv (pos + input.length) t)
    (RefusedSlices kernel)

/-- The request for the last bytes of a call, filled up to a block. -/
theorem cryptTail_ends (aes : K → BitVec 128 → Nat → UInt8) (kernel : Kernel)
    (s : AfAlgCtrAes128 K) {tail : List UInt8} {tailLen : Nat} (hlen : tail.length = tailLen)
    (hshort : tailLen < aesBlock) :
    Ends (cryptSlices aes kernel s.counterBlock [tail, zeros (aesBlock - tailLen)]) s
      (fun output t =>
        output = xorBytes (tail ++ zeros (aesBlock - tailLen))
          (window (keystream aes s.key s.counterBlock) 0 aesBlock) ∧ Sent s t)
      (RefusedSlices kernel) := by
  have hinput : [tail, zeros (aesBlock - tailLen)].flatten =
      tail ++ zeros (aesBlock - tailLen) := by
    simp
  have hblock : (tail ++ zeros (aesBlock - tailLen)).length = aesBlock := by
    rw [List.length_append, length_zeros]
    omega
  have hends := cryptSlices_ends aes kernel s.counterBlock (by rw [hinput]; exact hblock) s
  rw [hinput] at hends
  unfold encrypt at hends
  rw [hblock] at hends
  exact hends

/-- Raw keystream is zeroes under the keystream. -/
theorem keystreamBlocks_ends (haccepting : Accepting kernel) (iv : BitVec 128) {len : Nat}
    (hpos : 0 < len) (hwhole : len % aesBlock = 0) (hchunk : 0 < s.spliceChunk) :
    Ends (keystreamBlocks aes kernel len iv) s
      (fun output t =>
        output = xorBytes (zeros len) (window (keystream aes s.key iv) 0 (zeros len).length) ∧
          Sent s t)
      (RefusedSlices kernel) := by
  unfold keystreamBlocks
  apply ends_get_bind
  apply ends_ite
  · intro _
    unfold requestKeystream
    apply ends_ite
    · intro hbad
      omega
    · intro _
      exact ends_get_bind (ends_pure ⟨rfl, Sent.refl s⟩)
  · intro _
    exact cryptInPlace_ends aes kernel haccepting iv (zeros len) hchunk

/-- **`apply_keystream`.** -/
theorem apply_ends (haccepting : Accepting kernel) (h : At aes key iv pos s) (data : List UInt8)
    (hfits : pos + data.length < 2 ^ 128) :
    Gives aes kernel key iv pos (tryApplyKeystream aes kernel data) data s := by
  unfold Gives tryApplyKeystream
  apply ends_ite
  · rintro rfl
    exact ends_pure ⟨rfl, h⟩
  · intro _
    apply (takePending_ends h hfits _).bind
    rintro _ t ⟨take, hle, rfl, ht, hall⟩
    apply ends_get_bind
    apply ends_ite
    · intro hleft
      obtain rfl := hall hleft
      exact ends_pure ⟨rfl, ht⟩
    · intro hnone
      have hnone := not_not.mp hnone
      rw [length_window, xorBytes_window_split _ pos hle]
      have hsize : (data.drop take).length = data.length - take := List.length_drop
      dsimp only
      generalize data.drop take = remaining at hsize ⊢
      generalize hfull : remaining.length / aesBlock * aesBlock = fullLen
      have hfullLe : fullLen ≤ remaining.length := by
        rw [← hfull]
        exact Nat.div_mul_le_self remaining.length aesBlock
      have hwhole : fullLen % aesBlock = 0 := by
        rw [← hfull]
        exact Nat.mul_mod_left _ _
      have hshort : remaining.length - fullLen < aesBlock := by
        unfold aesBlock at *
        omega
      rw [xorBytes_window_split _ (pos + take) hfullLe]
      have htake : (remaining.take fullLen).length = fullLen := List.length_take_of_le hfullLe
      have hdrop : (remaining.drop fullLen).length = remaining.length - fullLen :=
        List.length_drop
      have hblocks := cryptInPlace_ends aes kernel haccepting t.counterBlock
        (remaining.take fullLen) ht.spliceChunk_pos
      apply (wholeBlocks_ends ht hnone htake hwhole (by omega) fun _ => hblocks).bind
      rintro _ u ⟨rfl, hu, hnone'⟩
      have htail := cryptTail_ends aes kernel u hdrop hshort
      apply (lastBytes_ends hu hnone' hdrop hshort (by omega) htail).bind
      rintro _ v ⟨rfl, hv⟩
      have hend : pos + take + fullLen + (remaining.length - fullLen) = pos + data.length := by
        omega
      rw [hend] at hv
      rw [htake]
      exact ends_pure ⟨rfl, hv⟩

/-- **`generate_keystream`** gives what zeroes would be turned into. -/
theorem generate_ends (haccepting : Accepting kernel) (h : At aes key iv pos s) (len : Nat)
    (hfits : pos + len < 2 ^ 128) :
    Gives aes kernel key iv pos (tryGenerateKeystream aes kernel len) (zeros len) s := by
  have hzero : ∀ start n, xorBytes (zeros n) (window (keystream aes key iv) start n) =
      window (keystream aes key iv) start n := xorBytes_zero_window (keystream aes key iv)
  unfold Gives tryGenerateKeystream
  rw [length_zeros, hzero]
  apply ends_ite
  · rintro rfl
    exact ends_pure ⟨rfl, h⟩
  · intro _
    apply (takePending_ends h hfits _).bind
    rintro _ t ⟨take, hle, rfl, ht, hall⟩
    apply ends_get_bind
    apply ends_ite
    · intro hleft
      obtain rfl := hall hleft
      exact ends_pure ⟨rfl, ht⟩
    · intro hnone
      have hnone := not_not.mp hnone
      rw [length_window]
      dsimp only
      generalize hremaining : len - take = remaining
      generalize hfull : remaining / aesBlock * aesBlock = fullLen
      have hfullLe : fullLen ≤ remaining := by
        rw [← hfull]
        exact Nat.div_mul_le_self remaining aesBlock
      have hwhole : fullLen % aesBlock = 0 := by
        rw [← hfull]
        exact Nat.mul_mod_left _ _
      have hshort : remaining - fullLen < aesBlock := by
        unfold aesBlock at *
        omega
      have hblocks := fun hpos => @keystreamBlocks_ends K aes kernel t haccepting t.counterBlock
        fullLen hpos hwhole ht.spliceChunk_pos
      apply (wholeBlocks_ends ht hnone (length_zeros fullLen) hwhole (by omega) hblocks).bind
      rintro _ u ⟨rfl, hu, hnone'⟩
      have hblock := @keystreamBlocks_ends K aes kernel u haccepting u.counterBlock aesBlock
        (by decide) (by decide) hu.spliceChunk_pos
      have hpadded : zeros aesBlock =
          zeros (remaining - fullLen) ++ zeros (aesBlock - (remaining - fullLen)) := by
        unfold zeros
        rw [List.replicate_append_replicate]
        congr 1
        omega
      rw [length_zeros, hpadded] at hblock
      apply (lastBytes_ends hu hnone' (length_zeros _) hshort (by omega) hblock).bind
      rintro _ v ⟨rfl, hv⟩
      have hend : pos + take + fullLen + (remaining - fullLen) = pos + len := by omega
      rw [hend] at hv
      refine ends_pure ⟨?_, hv⟩
      have hsplit : len = take + (fullLen + (remaining - fullLen)) := by omega
      rw [length_zeros, length_zeros, hzero, hzero, hsplit, window_add, window_add]

/-! ## Sessions -/

inductive CtrCall
  | apply (data : List UInt8)
  | generate (len : Nat)
  deriving DecidableEq, Repr

/-- What a call puts the keystream on. -/
def CtrCall.input : CtrCall → List UInt8
  | apply data => data
  | generate len => zeros len

def perform (aes : K → BitVec 128 → Nat → UInt8) (kernel : Kernel) :
    CtrCall → Action K (List UInt8)
  | .apply data => tryApplyKeystream aes kernel data
  | .generate len => tryGenerateKeystream aes kernel len

theorem perform_gives (haccepting : Accepting kernel) (h : At aes key iv pos s) (call : CtrCall)
    (hfits : pos + call.input.length < 2 ^ 128) :
    Gives aes kernel key iv pos (perform aes kernel call) call.input s := by
  cases call with
  | apply data => exact apply_ends haccepting h data hfits
  | generate len => exact generate_ends haccepting h len (by rwa [CtrCall.input, length_zeros] at hfits)

/-- The inputs of a session, put together. -/
def inputs (calls : List CtrCall) : List UInt8 := calls.flatMap CtrCall.input

/-- **A session of calls.** Its outputs are its inputs under one stretch of the keystream, and
`stream_pos` is their length; a session that stops before its end stops because the kernel took a
request of `crypt_slices` in part, and has given as much of the same. -/
def Continuous (aes : K → BitVec 128 → Nat → UInt8) (kernel : Kernel) (opFd : Nat) (key : K)
    (iv : BitVec 128) (calls : List CtrCall) : Prop :=
  let stream := xorBytes (inputs calls) (window (keystream aes key iv) 0 (inputs calls).length)
  let session := untilFailure (perform aes kernel) calls (tryNew aes kernel opFd key iv)
  match session.2 with
  | .ok _ t => session.1.flatten = stream ∧ t.streamPos = (inputs calls).length
  | .error e t => session.1.flatten <+: stream ∧ RefusedSlices kernel e t

/-- The stretch a call at `pos` gives. -/
def stretch (aes : K → BitVec 128 → Nat → UInt8) (key : K) (iv : BitVec 128) (pos : Nat)
    (call : CtrCall) : List UInt8 :=
  xorBytes call.input (window (keystream aes key iv) pos call.input.length)

def nextPos (pos : Nat) (call : CtrCall) : Nat := pos + call.input.length

theorem flatten_stretches (calls : List CtrCall) (pos : Nat) :
    (along (stretch aes key iv) nextPos pos calls).flatten =
      xorBytes (inputs calls) (window (keystream aes key iv) pos (inputs calls).length) := by
  induction calls generalizing pos with
  | nil => rfl
  | cons call calls ih =>
    unfold along inputs
    rw [List.flatten_cons, ih, List.flatMap_cons, xorBytes_window_append]
    rfl

theorem foldl_nextPos (calls : List CtrCall) (pos : Nat) :
    calls.foldl nextPos pos = pos + (inputs calls).length := by
  induction calls generalizing pos with
  | nil => rfl
  | cons call calls ih =>
    unfold inputs
    rw [List.foldl_cons, ih, List.flatMap_cons, List.length_append]
    unfold nextPos inputs
    omega

theorem fits_along (calls : List CtrCall) (pos : Nat)
    (h : pos + (inputs calls).length < 2 ^ 128) :
    AllAlong (fun pos call => pos + call.input.length < 2 ^ 128) nextPos pos calls := by
  induction calls generalizing pos with
  | nil => trivial
  | cons call calls ih =>
    unfold inputs at h
    rw [List.flatMap_cons, List.length_append] at h
    refine ⟨by omega, ih (nextPos pos call) ?_⟩
    unfold nextPos inputs
    omega

theorem continuous_of_accepting (haccepting : Accepting kernel) (opFd : Nat) (key : K)
    (iv : BitVec 128) {calls : List CtrCall} (hfits : (inputs calls).length < 2 ^ 128) :
    Continuous aes kernel opFd key iv calls := by
  have hstep : ∀ pos call s, At aes key iv pos s → pos + call.input.length < 2 ^ 128 →
      Ends (perform aes kernel call) s
        (fun output t => output = stretch aes key iv pos call ∧ At aes key iv (nextPos pos call) t)
        (RefusedSlices kernel) := fun pos call s h hfits => perform_gives haccepting h call hfits
  have hrun := untilFailure_ends hstep calls 0 (tryNew aes kernel opFd key iv) (at_tryNew opFd)
    (fits_along calls 0 (by omega))
  unfold Continuous
  dsimp only
  rw [← flatten_stretches]
  cases hend : (untilFailure (perform aes kernel) calls (tryNew aes kernel opFd key iv)).2 with
  | ok u t =>
    rw [hend] at hrun
    obtain ⟨houtputs, ht⟩ := hrun
    refine ⟨congrArg _ houtputs, ?_⟩
    rw [ht.streamPos_eq, foldl_nextPos, Nat.zero_add]
  | error e t =>
    rw [hend] at hrun
    obtain ⟨⟨later, houtputs⟩, hrefused⟩ := hrun
    refine ⟨⟨later.flatten, ?_⟩, hrefused⟩
    rw [← houtputs, List.flatten_append]

end Catplay.Analysis.Aes
