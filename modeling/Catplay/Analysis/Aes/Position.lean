import Catplay.Model.Aes.CtrKernel

/-!
# Engines and their position

What requests to the kernel give, and where an engine stands after them.
-/

set_option autoImplicit false

/-!
## Requests to the kernel

What the kernel makes of data, wherever its sends stop: the bytes of `crypt_in_place` are those of
one stretch of the keystream. A send that stops inside a block is made good from that block alone,
so every further request starts at a block again; the loop is followed with its offset at the start
of a block. The one thing that can go wrong is a request of `crypt_slices` taken in part.
-/

namespace Catplay.Analysis.Aes

open Catplay.Library.Checked (Stop)
open Catplay.Library.CounterMode
open Catplay.Library.Effects
open Catplay.Library.Keystream
open Catplay.Model.Aes
open Catplay.Model.Aes.AfAlgCtrAes128

variable {K : Type} (aes : K → BitVec 128 → Nat → UInt8) (kernel : Kernel)

/-- The stream of a key and an initial counter block. -/
def keystream (key : K) (iv : BitVec 128) : Nat → UInt8 :=
  counterStream (aes key) aesBlock iv

/-- A call stopped because the kernel took its last request, one of `crypt_slices`, in part. -/
def RefusedSlices (e : Stop AfAlgError) (self : AfAlgCtrAes128 K) : Prop :=
  e = .error .shortSend ∧
    ∃ n, self.requests = n + 1 ∧ kernel.acceptedSlices self.opFd n < aesBlock

/-- The kernel takes something of every request of `crypt_in_place`. -/
def Accepting : Prop := ∀ fd n, 1 ≤ kernel.accepted fd n

/-- Requests were sent. -/
def Sent (s t : AfAlgCtrAes128 K) : Prop := ∃ n, t = { s with requests := n }

theorem Sent.refl (s : AfAlgCtrAes128 K) : Sent s s := ⟨s.requests, rfl⟩

theorem Sent.trans {s t u : AfAlgCtrAes128 K} (h : Sent s t) (h' : Sent t u) : Sent s u := by
  obtain ⟨m, rfl⟩ := h
  obtain ⟨n, rfl⟩ := h'
  exact ⟨n, rfl⟩

theorem Sent.key {s t : AfAlgCtrAes128 K} (h : Sent s t) : t.key = s.key := by
  obtain ⟨n, rfl⟩ := h
  rfl

theorem Sent.spliceChunk {s t : AfAlgCtrAes128 K} (h : Sent s t) :
    t.spliceChunk = s.spliceChunk := by
  obtain ⟨n, rfl⟩ := h
  rfl

/-! ### Encryption as a stretch -/

/-- Input encrypted from block `n` on. -/
theorem encrypt_ivAddBe128 (key : K) (iv : BitVec 128) (n : Nat) (input : List UInt8) :
    encrypt aes key (ivAddBe128 iv n) input =
      xorBytes input (window (keystream aes key iv) (aesBlock * n) input.length) := by
  unfold encrypt ivAddBe128 keystream
  rw [window_counterStream_add (aes key) (by decide : 0 < aesBlock), Nat.add_zero]

/-- Input encrypted from an offset at the start of a block. -/
theorem encrypt_chunk (key : K) (iv : BitVec 128) {byteOffset : Nat}
    (hstart : byteOffset % aesBlock = 0) (input : List UInt8) :
    encrypt aes key (ivAddBe128 iv (byteOffset / aesBlock)) input =
      xorBytes input (window (keystream aes key iv) byteOffset input.length) := by
  have hoffset : aesBlock * (byteOffset / aesBlock) = byteOffset := by
    unfold aesBlock at hstart ⊢
    omega
  rw [encrypt_ivAddBe128, hoffset]

@[simp] theorem length_zeros (len : Nat) : (zeros len).length = len := List.length_replicate

/-- A block of zeroes encrypted is the block of the keystream. -/
theorem encrypt_zeros (key : K) (iv : BitVec 128) (n len : Nat) :
    encrypt aes key (ivAddBe128 iv n) (zeros len) =
      window (keystream aes key iv) (aesBlock * n) len := by
  rw [encrypt_ivAddBe128, length_zeros]
  exact xorBytes_zero_window (keystream aes key iv) (aesBlock * n) len

/-- **The repair.** The rest of the block that has the offset. -/
theorem repair_eq (key : K) (iv : BitVec 128) {byteOffset within len : Nat}
    (hwithin : byteOffset % aesBlock = within) (hlen : within + len ≤ aesBlock) :
    ((encrypt aes key (ivAddBe128 iv (byteOffset / aesBlock)) (zeros aesBlock)).drop within).take
      len = window (keystream aes key iv) byteOffset len := by
  have hoffset : aesBlock * (byteOffset / aesBlock) + within = byteOffset := by
    rw [← hwithin]
    exact Nat.div_add_mod byteOffset aesBlock
  rw [encrypt_zeros, take_drop_window _ _ hlen, hoffset]

/-! ### Sending -/

theorem sendOnce_ends (haccepting : Accepting kernel) {data : List UInt8} (hdata : data ≠ [])
    {s : AfAlgCtrAes128 K} (hchunk : 0 < s.spliceChunk)
    (E : Stop AfAlgError → AfAlgCtrAes128 K → Prop) :
    Ends (sendOnceWaitWritable kernel data) s
      (fun sent t => 0 < sent ∧ sent ≤ data.length ∧ Sent s t) E := by
  have hlen := List.length_pos_iff.mpr hdata
  have haccept := haccepting s.opFd s.requests
  unfold sendOnceWaitWritable
  apply Ends.bind (P := fun sent t => 0 < sent ∧ sent ≤ data.length ∧ Sent s t)
  · refine ⟨?_, ?_, s.requests + 1, rfl⟩
    · simp only [Nat.lt_min]
      exact ⟨haccept, hlen, hchunk⟩
    · exact Nat.le_trans (Nat.min_le_right _ _) (Nat.min_le_left _ _)
  · rintro sent t ⟨hpos, hle, hsent⟩
    apply ends_ite
    · intro hzero
      omega
    · intro _
      exact ends_pure ⟨hpos, hle, hsent⟩

theorem cryptSlices_ends (iv : BitVec 128) {inputs : List (List UInt8)}
    (hblock : inputs.flatten.length = aesBlock) (s : AfAlgCtrAes128 K) :
    Ends (cryptSlices aes kernel iv inputs) s
      (fun output t => output = encrypt aes s.key iv inputs.flatten ∧ Sent s t)
      (RefusedSlices kernel) := by
  have hne : inputs.flatten ≠ [] := by
    intro hnil
    rw [hnil] at hblock
    cases hblock
  unfold cryptSlices
  dsimp only
  rw [if_neg hne]
  apply Ends.bind (P := fun sent t =>
    sent = min (kernel.acceptedSlices s.opFd s.requests) inputs.flatten.length ∧
      t = { s with requests := s.requests + 1 })
  · exact ⟨rfl, rfl⟩
  · rintro sent t ⟨rfl, rfl⟩
    apply ends_ite
    · intro _
      exact ⟨rfl, s.requests + 1, rfl⟩
    · intro hshort
      refine ends_throw ⟨rfl, s.requests, rfl, ?_⟩
      show kernel.acceptedSlices s.opFd s.requests < aesBlock
      omega

/-! ### The loop -/

/-- **Wherever the sends stop.** From an offset at the start of a block, the loop turns the data
into one stretch of the keystream over it. -/
theorem cryptLoop_ends (haccepting : Accepting kernel) (iv : BitVec 128) (fuel : Nat) :
    ∀ (byteOffset : Nat) (remaining : List UInt8) (s : AfAlgCtrAes128 K),
      remaining.length ≤ fuel → 0 < s.spliceChunk →
      byteOffset % aesBlock = 0 ∨ remaining = [] →
      Ends (cryptLoop aes kernel iv fuel byteOffset remaining) s
        (fun output t =>
          output = xorBytes remaining
            (window (keystream aes s.key iv) byteOffset remaining.length) ∧ Sent s t)
        (RefusedSlices kernel) := by
  induction fuel with
  | zero =>
    intro byteOffset remaining s hfuel _ _
    obtain rfl := List.length_eq_zero_iff.mp (Nat.le_zero.mp hfuel)
    unfold cryptLoop
    exact ends_pure ⟨rfl, Sent.refl s⟩
  | succ fuel ih =>
    intro byteOffset remaining s hfuel hchunk haligned
    cases remaining with
    | nil =>
      unfold cryptLoop
      exact ends_pure ⟨rfl, Sent.refl s⟩
    | cons byte bytes =>
      have hstart : byteOffset % aesBlock = 0 := by
        rcases haligned with h | h
        · exact h
        · cases h
      unfold cryptLoop
      dsimp only
      generalize hdata : byte :: bytes = data at hfuel ⊢
      have hne : data ≠ [] := by
        rw [← hdata]
        exact List.cons_ne_nil byte bytes
      apply (sendOnce_ends kernel haccepting hne hchunk _).bind
      rintro sent t ⟨hpos, hle, hst⟩
      apply ends_get_bind
      have hfront : encrypt aes t.key (ivAddBe128 iv (byteOffset / aesBlock)) (data.take sent) =
          xorBytes (data.take sent) (window (keystream aes s.key iv) byteOffset sent) := by
        rw [encrypt_chunk aes t.key iv hstart, hst.key, List.length_take_of_le hle]
      rw [hfront, xorBytes_window_split _ byteOffset hle]
      have hrest : (data.drop sent).length ≤ fuel := by
        rw [List.length_drop]
        omega
      have hchunk' : 0 < t.spliceChunk := by
        rw [hst.spliceChunk]
        exact hchunk
      have hlen := List.length_drop (i := sent) (l := data)
      apply ends_ite
      · rintro ⟨-, hinside⟩
        -- The send stopped inside a block: the rest of that block comes first.
        have hwithin : (byteOffset + sent) % aesBlock = sent % aesBlock := by
          rw [Nat.add_mod, hstart, Nat.zero_add, Nat.mod_mod]
        apply (cryptSlices_ends aes kernel _ (by simp) t).bind
        rintro _ u ⟨rfl, htu⟩
        have hfull : sent % aesBlock +
            min (aesBlock - sent % aesBlock) (data.drop sent).length ≤ aesBlock := by
          have := Nat.mod_lt sent (show 0 < aesBlock by decide)
          omega
        rw [List.flatten_singleton, repair_eq aes t.key iv hwithin hfull, hst.key]
        generalize hpartial : min (aesBlock - sent % aesBlock) (data.drop sent).length = partialLen
          at hfull ⊢
        have hle' : partialLen ≤ (data.drop sent).length := by omega
        have hlen' := List.length_drop (i := partialLen) (l := data.drop sent)
        rw [xorBytes_window_split _ (byteOffset + sent) hle']
        apply Ends.bind
        · apply ih (byteOffset + sent + partialLen) _ u
          · omega
          · rw [htu.spliceChunk]
            exact hchunk'
          · by_cases hend : partialLen = (data.drop sent).length
            · right
              exact List.drop_of_length_le (Nat.le_of_eq hend.symm)
            · left
              unfold aesBlock at *
              omega
        · rintro _ v ⟨rfl, huv⟩
          rw [htu.key, hst.key]
          exact ends_pure ⟨rfl, (hst.trans htu).trans huv⟩
      · intro hwhole
        apply Ends.bind
        · apply ih (byteOffset + sent) _ t hrest hchunk'
          by_cases hend : sent = data.length
          · right
            exact List.drop_of_length_le (Nat.le_of_eq hend.symm)
          · left
            unfold aesBlock at *
            omega
        · rintro _ u ⟨rfl, htu⟩
          rw [hst.key]
          exact ends_pure ⟨rfl, hst.trans htu⟩

/-- **`crypt_in_place`**: the data under the keystream of the counter. -/
theorem cryptInPlace_ends (haccepting : Accepting kernel) (iv : BitVec 128) (data : List UInt8)
    {s : AfAlgCtrAes128 K} (hchunk : 0 < s.spliceChunk) :
    Ends (cryptInPlace aes kernel iv data) s
      (fun output t =>
        output = xorBytes data (window (keystream aes s.key iv) 0 data.length) ∧ Sent s t)
      (RefusedSlices kernel) :=
  cryptLoop_ends aes kernel haccepting iv data.length 0 data s (Nat.le_refl _) hchunk (.inl rfl)

end Catplay.Analysis.Aes

/-!
## The position of an engine

`At key iv pos s`: the engine stands at byte `pos` of the stream of a key and an initial
counter block. The keystream that is pending is the stretch behind that position, up to the start
of a block, so an engine with nothing pending is at the start of one. Each part of a call moves the
position over what it gives, and each call of the two gives its input under the stretch it moves
over.
-/

namespace Catplay.Analysis.Aes

open Catplay.Library.Checked (Stop)
open Catplay.Library.CounterMode
open Catplay.Library.Effects
open Catplay.Library.Keystream
open Catplay.Model.Aes
open Catplay.Model.Aes.AfAlgCtrAes128

variable {K : Type} (aes : K → BitVec 128 → Nat → UInt8) (kernel : Kernel)

structure At (key : K) (iv : BitVec 128) (pos : Nat) (s : AfAlgCtrAes128 K) : Prop where
  key_eq : s.key = key
  initialIv_eq : s.initialIv = iv
  streamPos_eq : s.streamPos = pos
  pending : s.pendingKeystream = window (keystream aes key iv) pos s.pendingKeystream.length
  aligned : (pos + s.pendingKeystream.length) % aesBlock = 0
  spliceChunk_pos : 0 < s.spliceChunk

variable {aes kernel}
variable {key : K} {iv : BitVec 128} {pos : Nat}

theorem afalgZeroCopyChunkLen_pos (pageSize : Nat) : 0 < afalgZeroCopyChunkLen pageSize :=
  Nat.lt_of_lt_of_le (by decide : 0 < aesBlock) (Nat.le_max_right _ _)

/-- A new engine stands at the start, in either mode. -/
theorem at_tryNew (opFd : Nat) : At aes key iv 0 (tryNew aes kernel opFd key iv) := by
  have hfirst : encrypt aes key iv (zeros aesBlock) =
      window (keystream aes key iv) 0 aesBlock := by
    unfold encrypt
    rw [length_zeros]
    exact xorBytes_zero_window (keystream aes key iv) 0 aesBlock
  refine ⟨rfl, rfl, rfl, ?_, ?_, afalgZeroCopyChunkLen_pos kernel.pageSize⟩
  · unfold tryNew
    dsimp only
    cases kernel.keystreamOnly opFd with
    | true =>
      rw [if_pos rfl, hfirst, length_window]
    | false => rfl
  · unfold tryNew
    dsimp only
    cases kernel.keystreamOnly opFd with
    | true =>
      rw [if_pos rfl, hfirst, length_window]
      rfl
    | false => rfl

namespace At

variable {s t : AfAlgCtrAes128 K}

/-- Requests leave an engine where it stands. -/
theorem sent (h : At aes key iv pos s) (hsent : Sent s t) : At aes key iv pos t := by
  obtain ⟨n, rfl⟩ := hsent
  exact ⟨h.1, h.2, h.3, h.4, h.5, h.6⟩

/-- With nothing pending, the counter block is that of the position. -/
theorem window_counterBlock (h : At aes key iv pos s) (haligned : pos % aesBlock = 0) (len : Nat) :
    window (keystream aes s.key s.counterBlock) 0 len = window (keystream aes key iv) pos len := by
  have hpos : aesBlock * (pos / aesBlock) = pos := by
    unfold aesBlock at haligned ⊢
    omega
  unfold counterBlock ivAddBe128 keystream
  rw [window_counterStream_add _ (by decide : 0 < aesBlock), h.key_eq, h.initialIv_eq,
    h.streamPos_eq, hpos, Nat.add_zero]

end At

theorem advance_ends {s : AfAlgCtrAes128 K} {len : Nat} (h : s.streamPos + len < 2 ^ 128)
    (E : Stop AfAlgError → AfAlgCtrAes128 K → Prop) :
    Ends (advance len) s (fun _ t => t = { s with streamPos := s.streamPos + len }) E := by
  unfold advance
  apply ends_get_bind
  rw [if_pos h]
  exact rfl

/-- What is pending goes first. -/
theorem takePending_ends {s : AfAlgCtrAes128 K} (h : At aes key iv pos s) {len : Nat}
    (hfits : pos + len < 2 ^ 128) (E : Stop AfAlgError → AfAlgCtrAes128 K → Prop) :
    Ends (takePending len) s
      (fun head t => ∃ take ≤ len, head = window (keystream aes key iv) pos take ∧
        At aes key iv (pos + take) t ∧ (t.pendingKeystream ≠ [] → take = len)) E := by
  unfold takePending
  apply ends_get_bind
  dsimp only
  generalize htake : min s.pendingKeystream.length len = take
  have hstart := h.streamPos_eq
  apply (advance_ends (by omega) E).bind
  rintro _ _ rfl
  apply ends_modify_bind
  have hle : take ≤ s.pendingKeystream.length := by omega
  have haligned := h.aligned
  refine ends_pure ⟨take, by omega, ?_, ⟨h.key_eq, h.initialIv_eq, ?_, ?_, ?_, h.6⟩, ?_⟩
  · rw [h.pending, take_window _ _ hle]
  · show s.streamPos + take = pos + take
    rw [hstart]
  · show s.pendingKeystream.drop take = window _ (pos + take) (s.pendingKeystream.drop take).length
    rw [List.length_drop, ← drop_window _ _ hle, ← h.pending]
  · show (pos + take + (s.pendingKeystream.drop take).length) % aesBlock = 0
    rw [List.length_drop]
    have hsum : pos + take + (s.pendingKeystream.length - take) =
        pos + s.pendingKeystream.length := by omega
    rwa [hsum]
  · intro hleft
    have hlt : take < s.pendingKeystream.length := by
      apply Nat.lt_of_not_le
      intro hge
      exact hleft (List.drop_of_length_le hge)
    omega

/-- **The whole blocks.** -/
theorem wholeBlocks_ends {s : AfAlgCtrAes128 K} (h : At aes key iv pos s)
    (hnone : s.pendingKeystream = []) {data : List UInt8} {fullLen : Nat}
    (hlen : data.length = fullLen) (hwhole : fullLen % aesBlock = 0)
    (hfits : pos + fullLen < 2 ^ 128) {crypt : BitVec 128 → Action K (List UInt8)}
    {E : Stop AfAlgError → AfAlgCtrAes128 K → Prop}
    (hcrypt : 0 < fullLen → Ends (crypt s.counterBlock) s
      (fun output t =>
        output = xorBytes data (window (keystream aes s.key s.counterBlock) 0 data.length) ∧
          Sent s t) E) :
    Ends (wholeBlocks crypt fullLen) s
      (fun output t =>
        output = xorBytes data (window (keystream aes key iv) pos data.length) ∧
          At aes key iv (pos + fullLen) t ∧ t.pendingKeystream = []) E := by
  have haligned : pos % aesBlock = 0 := by
    have := h.aligned
    rwa [hnone] at this
  unfold wholeBlocks
  apply ends_ite
  · intro hpos
    apply ends_get_bind
    apply (hcrypt hpos).bind
    rintro _ t ⟨rfl, ht⟩
    have hat := h.sent ht
    have hnone' : t.pendingKeystream = [] := by
      obtain ⟨n, rfl⟩ := ht
      exact hnone
    have hstart := hat.streamPos_eq
    apply (advance_ends (by omega) E).bind
    rintro _ _ rfl
    refine ends_pure ⟨?_, ⟨hat.1, hat.2, ?_, ?_, ?_, hat.6⟩, hnone'⟩
    · rw [h.window_counterBlock haligned]
    · show t.streamPos + fullLen = pos + fullLen
      rw [hstart]
    · show t.pendingKeystream = window _ (pos + fullLen) t.pendingKeystream.length
      rw [hnone']
      rfl
    · show (pos + fullLen + t.pendingKeystream.length) % aesBlock = 0
      rw [hnone', List.length_nil, Nat.add_zero]
      unfold aesBlock at *
      omega
  · intro hzero
    obtain rfl : fullLen = 0 := by omega
    obtain rfl := List.length_eq_zero_iff.mp hlen
    exact ends_pure ⟨rfl, h, hnone⟩

/-- **The last bytes**: the rest of their block is pending. -/
theorem lastBytes_ends {s : AfAlgCtrAes128 K} (h : At aes key iv pos s)
    (hnone : s.pendingKeystream = []) {tail : List UInt8} {tailLen : Nat}
    (hlen : tail.length = tailLen) (hshort : tailLen < aesBlock)
    (hfits : pos + tailLen < 2 ^ 128) {crypt : BitVec 128 → Action K (List UInt8)}
    {E : Stop AfAlgError → AfAlgCtrAes128 K → Prop}
    (hcrypt : Ends (crypt s.counterBlock) s
      (fun output t =>
        output = xorBytes (tail ++ zeros (aesBlock - tailLen))
          (window (keystream aes s.key s.counterBlock) 0 aesBlock) ∧ Sent s t) E) :
    Ends (lastBytes crypt tailLen) s
      (fun output t =>
        output = xorBytes tail (window (keystream aes key iv) pos tail.length) ∧
          At aes key iv (pos + tailLen) t) E := by
  have haligned : pos % aesBlock = 0 := by
    have := h.aligned
    rwa [hnone] at this
  have hblock : xorBytes (tail ++ zeros (aesBlock - tailLen))
        (window (keystream aes key iv) pos aesBlock) =
      xorBytes tail (window (keystream aes key iv) pos tailLen) ++
        window (keystream aes key iv) (pos + tailLen) (aesBlock - tailLen) := by
    have hsize : (tail ++ zeros (aesBlock - tailLen)).length = aesBlock := by
      rw [List.length_append, length_zeros]
      omega
    have happend := xorBytes_window_append (keystream aes key iv) pos tail
      (zeros (aesBlock - tailLen))
    rw [hsize, length_zeros, hlen] at happend
    rw [happend]
    exact congrArg _ (xorBytes_zero_window (keystream aes key iv) (pos + tailLen)
      (aesBlock - tailLen))
  have hfront : (xorBytes tail (window (keystream aes key iv) pos tailLen)).length = tailLen := by
    rw [← hlen]
    exact length_xorBytes_window (keystream aes key iv) pos tail
  unfold lastBytes
  apply ends_ite
  · intro hpos
    apply ends_get_bind
    apply hcrypt.bind
    rintro _ t ⟨rfl, ht⟩
    rw [h.window_counterBlock haligned, hblock, hlen]
    have hat := h.sent ht
    have hstart := hat.streamPos_eq
    apply ends_modify_bind
    apply (advance_ends (by show t.streamPos + tailLen < 2 ^ 128; omega) E).bind
    rintro _ _ rfl
    refine ends_pure ⟨?_, hat.1, hat.2, ?_, ?_, ?_, hat.6⟩
    · rw [List.take_append_of_le_length (by omega), List.take_of_length_le (by omega)]
    · show t.streamPos + tailLen = pos + tailLen
      rw [hstart]
    · rw [List.drop_append_of_le_length (by omega), List.drop_of_length_le (by omega),
        List.nil_append, length_window]
    · rw [List.drop_append_of_le_length (by omega), List.drop_of_length_le (by omega),
        List.nil_append, length_window]
      unfold aesBlock at *
      omega
  · intro hzero
    obtain rfl : tailLen = 0 := by omega
    obtain rfl := List.length_eq_zero_iff.mp hlen
    exact ends_pure ⟨rfl, h⟩

end Catplay.Analysis.Aes
