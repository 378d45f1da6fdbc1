import Catplay.Library.Run
import Catplay.Model.Timing.MediaClock

/-!
# The error of the media clock

A stamp is the reading of its clock up to a nanosecond, as long as its seconds stay in one window
of the signed 32-bit reading (`asNanos_fromMonotonicNanos`). Then the offset that an exchange gives
is the true one up to half its round trip (`offset_of_exchange`), whatever delays, losses and
duplicates there are, and so is the offset that the session keeps (`offset_bounded`).
-/

set_option autoImplicit false

namespace Catplay.Analysis.Timing

open Catplay.Library.Run Catplay.Model.Timing

/-! ## A head unit, a phone and the network between them -/

/-- A request and its response: when the one was sent, answered, and the other taken. -/
structure Exchange where
  sent : Int
  answered : Int
  fed : Int
  deriving DecidableEq, Repr

/-- Packets stay in the network with the times they were made at. Each can be taken any number of
times, in any order, or never. -/
structure Network where
  now : Int
  headUnit : MediaClockSession
  phone : MediaClockSession
  requests : List (RtcpTimeSyncPacket × Int)
  responses : List (RtcpTimeSyncPacket × Int × Int)
  /-- The exchanges whose response was not ignored. -/
  accepted : List Exchange

inductive NetworkAction
  | wait (nanos : Nat)
  | ping
  | respond (i : Nat)
  | feed (i : Nat)
  deriving DecidableEq, Repr

/-- A response counts before the initialisation, and later if it is for the last ping. -/
def accepts (session : MediaClockSession) (resp : RtcpTimeSyncPacket) : Bool :=
  !session.initialized || session.lastT3 == some resp.t1

def networkStep (s : Network) : NetworkAction → Option Network
  | .wait nanos => some { s with now := s.now + nanos }
  | .ping =>
    let (headUnit, ping) := s.headUnit.createPing s.now
    some { s with headUnit, requests := s.requests ++ [(ping, s.now)] }
  | .respond i =>
    s.requests[i]?.map fun (ping, sent) =>
      { s with responses := s.responses ++ [(s.phone.respond ping s.now, sent, s.now)] }
  | .feed i =>
    s.responses[i]?.map fun (resp, sent, answered) =>
      { s with
        headUnit := s.headUnit.feed resp s.now
        accepted :=
          if accepts s.headUnit resp then s.accepted ++ [⟨sent, answered, s.now⟩]
          else s.accepted }

/-! ## Statements -/

/-- From `start` on the clock reads the time shifted by `shift`. -/
structure Ticks (clock : Clock) (shift start : Int) : Prop where
  elapsed : ∀ now, start ≤ now → clock.elapsedNs now = now + shift
  encode : ∀ pts, start ≤ pts → clock.encodeNs pts = pts + shift
  decode : ∀ ns : Int, ns.natAbs < 2 ^ 63 → clock.decodeNs ns = ns - shift

/-- Two clocks that run at the same rate. -/
structure TwoClocks where
  headUnit : Clock
  phone : Clock
  shiftHeadUnit : Int
  shiftPhone : Int
  start : Int
  headUnitTicks : Ticks headUnit shiftHeadUnit start
  phoneTicks : Ticks phone shiftPhone start

namespace TwoClocks

/-- What the phone is ahead. -/
def difference (c : TwoClocks) : Int := c.shiftPhone - c.shiftHeadUnit

def freshNetwork (c : TwoClocks) (now : Int) : Network :=
  ⟨now, .newWithClock c.headUnit, .newWithClock c.phone, [], [], []⟩

end TwoClocks

/-- The nanoseconds whose seconds lie in the window of number `k` of the signed reading. -/
def InWindow (k nanos : Int) : Prop :=
  (2 ^ 32 * k - 2 ^ 31) * 1000000000 ≤ nanos ∧ nanos < (2 ^ 32 * k + 2 ^ 31) * 1000000000

/-- The offset is off by at most half the round trip and three halves of a nanosecond. -/
def OffsetWithin (offsetNs difference : Int) (x : Exchange) : Prop :=
  (2 * (offsetNs - difference)).natAbs ≤ x.fed - x.sent + 3

/-- A stamp that the phone made for `pts` is decoded to `pts` within that bound and a nanosecond. -/
def DecodesWithin (s : Network) (x : Exchange) (pts : Int) : Prop :=
  ∃ decoded, s.headUnit.decodeRemote (s.phone.encodeLocal pts) = some decoded ∧
    (2 * (decoded - pts)).natAbs ≤ x.fed - x.sent + 5

/-- Once initialised, the head unit has the offset of an accepted exchange, and decodes the stamps
of the phone for the instants that satisfy `readable`. -/
def Synchronised (s : Network) (difference : Int) (readable : Int → Prop) : Prop :=
  s.headUnit.initialized = true →
    ∃ pll, s.headUnit.pll = some pll ∧ ∃ x ∈ s.accepted, x.sent ≤ x.fed ∧
      OffsetWithin pll.offsetNs difference x ∧ ∀ pts, readable pts → DecodesWithin s x pts

/-- The NTP seconds of both clocks lie in the window of number `k`. -/
def WithinWindow (c : TwoClocks) (k : Int) (s : Network) (_ : NetworkAction) : Prop :=
  InWindow k (s.now + c.shiftHeadUnit + ntpUnixEpochOffsetNs) ∧
    InWindow k (s.now + c.shiftPhone + ntpUnixEpochOffsetNs)

/-! ## Stamps -/

theorem toNat_secs (secs : Int) :
    ((Int64.ofInt secs).toUInt64 <<< 32).toNat = (secs % 2 ^ 32).toNat * 2 ^ 32 := by
  rw [UInt64.toNat_shiftLeft]
  have h : (Int64.ofInt secs).toUInt64.toNat = (secs % 2 ^ 64).toNat := by
    show (BitVec.ofInt 64 secs).toNat = _
    rw [BitVec.toNat_ofInt]
    rfl
  rw [h, Nat.shiftLeft_eq]
  show (secs % 2 ^ 64).toNat * 2 ^ 32 % 2 ^ 64 = _
  omega

theorem toNat_stamp (secs : Int) {frac : Nat} (hfrac : frac < 2 ^ 32) :
    (((Int64.ofInt secs).toUInt64 <<< 32) ||| UInt64.ofNat frac).toNat =
      (secs % 2 ^ 32).toNat * 2 ^ 32 + frac := by
  rw [UInt64.toNat_or, toNat_secs, UInt64.toNat_ofNat', Nat.mod_eq_of_lt (by omega),
    ← Nat.shiftLeft_eq, ← Nat.shiftLeft_add_eq_or_of_lt hfrac]

theorem toInt_secs (x : UInt64) :
    (x >>> 32).toUInt32.toInt32.toInt = ((x.toNat / 2 ^ 32 : Nat) : Int).bmod (2 ^ 32) := by
  have h : (x >>> 32).toUInt32.toNat = x.toNat / 2 ^ 32 := by
    rw [UInt64.toNat_toUInt32, UInt64.toNat_shiftRight, Nat.shiftRight_eq_div_pow]
    have hx := x.toNat_lt
    show x.toNat / 2 ^ 32 % 2 ^ 32 = _
    omega
  show BitVec.toInt (x >>> 32).toUInt32.toBitVec = _
  rw [BitVec.toInt_eq_toNat_bmod]
  show ((x >>> 32).toUInt32.toNat : Int).bmod (2 ^ 32) = _
  rw [h]

theorem toNat_frac (x : UInt64) : (x &&& 0xFFFFFFFF).toNat = x.toNat % 2 ^ 32 := by
  rw [UInt64.toNat_and]
  exact Nat.and_two_pow_sub_one_eq_mod x.toNat 32

/-- **A stamp is its reading**, less the windows below it and a nanosecond at most. -/
theorem asNanos_fromMonotonicNanos {k nanos : Int} (h : InWindow k nanos) :
    ∃ e : Int, 0 ≤ e ∧ e ≤ 1 ∧ NtpU64.asNanos (NtpU64.fromMonotonicNanos nanos) =
      nanos - 2 ^ 32 * k * 1000000000 - e := by
  obtain ⟨hlow, hhigh⟩ := h
  unfold NtpU64.asNanos NtpU64.fromMonotonicNanos
  dsimp only
  rw [toInt_secs, toNat_frac, toNat_stamp _ (by omega)]
  have hsecs : (((nanos / 1000000000 % 2 ^ 32).toNat * 2 ^ 32 +
      (nanos % 1000000000).toNat * 2 ^ 32 / 1000000000) / 2 ^ 32 : Nat) =
        (nanos / 1000000000 % 2 ^ 32).toNat := by omega
  have hfrac : (((nanos / 1000000000 % 2 ^ 32).toNat * 2 ^ 32 +
      (nanos % 1000000000).toNat * 2 ^ 32 / 1000000000) % 2 ^ 32 : Nat) =
        (nanos % 1000000000).toNat * 2 ^ 32 / 1000000000 := by omega
  rw [hsecs, hfrac, Int.toNat_of_nonneg (by omega)]
  have hsigned : (nanos / 1000000000 % 2 ^ 32).bmod (2 ^ 32) =
      nanos / 1000000000 - 2 ^ 32 * k := by
    rw [Int.bmod_def]
    split <;> omega
  rw [hsigned]
  refine ⟨nanos % 1000000000 -
    ((nanos % 1000000000).toNat * 2 ^ 32 / 1000000000 * 1000000000 / 2 ^ 32 : Nat), ?_, ?_, ?_⟩
  · omega
  · omega
  · omega

/-- A stamp reads less than half a window. -/
theorem natAbs_asNanos_le (x : NtpU64) : x.asNanos.natAbs ≤ 2 ^ 31 * 1000000000 := by
  unfold NtpU64.asNanos
  dsimp only
  rw [toInt_secs, toNat_frac]
  have hlow := Int.le_bmod (x := ((x.toNat / 2 ^ 32 : Nat) : Int)) (m := 2 ^ 32) (by decide)
  have hhigh := Int.bmod_lt (x := ((x.toNat / 2 ^ 32 : Nat) : Int)) (m := 2 ^ 32) (by decide)
  omega

/-! ## One exchange -/

theorem two_mul_tdiv (a : Int) : a - 1 ≤ 2 * a.tdiv 2 ∧ 2 * a.tdiv 2 ≤ a + 1 := by
  have hsplit := Int.mul_tdiv_add_tmod a 2
  have hlow := Int.lt_tmod_of_pos a (by decide : (0 : Int) < 2)
  have hhigh := Int.tmod_lt_of_pos a (by decide : (0 : Int) < 2)
  omega

/-- The stamp of a reading in the window of number `k`. -/
def Stamped (k : Int) (stamp : NtpU64) (reading : Int) : Prop :=
  ∃ e : Int, 0 ≤ e ∧ e ≤ 1 ∧
    stamp.asNanos = reading + ntpUnixEpochOffsetNs - 2 ^ 32 * k * 1000000000 - e

theorem stamped_of_inWindow {k reading : Int} (h : InWindow k (reading + ntpUnixEpochOffsetNs)) :
    Stamped k (.fromMonotonicNanos (reading + ntpUnixEpochOffsetNs)) reading :=
  asNanos_fromMonotonicNanos h

/-- **One exchange**: the response was made between the request and its own arrival, so half the
sum of the two differences is the difference of the clocks up to half the round trip. -/
theorem offset_of_exchange {k shiftHu shiftPhone : Int} {resp : RtcpTimeSyncPacket} {t4 : NtpU64}
    {x : Exchange} (h1 : Stamped k resp.t1 (x.sent + shiftHu))
    (h2 : Stamped k resp.t2 (x.answered + shiftPhone)) (h3 : resp.t3 = resp.t2)
    (h4 : Stamped k t4 (x.fed + shiftHu)) (hsent : x.sent ≤ x.answered)
    (hfed : x.answered ≤ x.fed) :
    OffsetWithin (resp.offsetNs t4) (shiftPhone - shiftHu) x := by
  obtain ⟨e1, hlow1, hhigh1, ht1⟩ := h1
  obtain ⟨e2, hlow2, hhigh2, ht2⟩ := h2
  obtain ⟨e4, hlow4, hhigh4, ht4⟩ := h4
  have hsum : NtpU64.diffInNanos resp.t2 resp.t1 + NtpU64.diffInNanos resp.t3 t4 =
      2 * (shiftPhone - shiftHu) + 2 * x.answered - x.sent - x.fed + (e1 + e4 - 2 * e2) := by
    unfold NtpU64.diffInNanos
    rw [h3, ht1, ht2, ht4]
    omega
  have hhalf := two_mul_tdiv (NtpU64.diffInNanos resp.t2 resp.t1 + NtpU64.diffInNanos resp.t3 t4)
  unfold OffsetWithin
  rw [show resp.offsetNs t4 =
    (NtpU64.diffInNanos resp.t2 resp.t1 + NtpU64.diffInNanos resp.t3 t4).tdiv 2 from rfl]
  rw [hsum] at hhalf ⊢
  generalize (2 * (shiftPhone - shiftHu) + 2 * x.answered - x.sent - x.fed +
    (e1 + e4 - 2 * e2)).tdiv 2 = offset at hhalf ⊢
  omega

theorem natAbs_offsetNs_le (resp : RtcpTimeSyncPacket) (t4 : NtpU64) :
    (resp.offsetNs t4).natAbs ≤ 2 ^ 32 * 1000000000 + 1 := by
  have h1 := natAbs_asNanos_le resp.t1
  have h2 := natAbs_asNanos_le resp.t2
  have h3 := natAbs_asNanos_le resp.t3
  have h4 := natAbs_asNanos_le t4
  unfold RtcpTimeSyncPacket.offsetNs NtpU64.diffInNanos
  have hhalf := two_mul_tdiv (resp.t2.asNanos - resp.t1.asNanos + (resp.t3.asNanos - t4.asNanos))
  omega

theorem rttNs_lt (resp : RtcpTimeSyncPacket) (t4 : NtpU64) : resp.rttNs t4 < i128Max := by
  have h1 := natAbs_asNanos_le resp.t1
  have h2 := natAbs_asNanos_le resp.t2
  have h3 := natAbs_asNanos_le resp.t3
  have h4 := natAbs_asNanos_le t4
  unfold RtcpTimeSyncPacket.rttNs NtpU64.diffInNanos i128Max
  omega

/-! ## The session -/

/-- The offset of the session, and the best one while it is collecting, is a good one. -/
structure Tracks (good : Int → Prop) (s : MediaClockSession) : Prop where
  ready : s.initialized = true → ∃ pll, s.pll = some pll ∧ good pll.offsetNs
  probe : s.initialized = false → s.bestRtt = i128Max ∨ good s.bestOffset

theorem update_offsetNs (pll : MediaPll) (nowNs phaseErrorNs : Int) :
    (pll.update nowNs phaseErrorNs).offsetNs = pll.offsetNs := by
  unfold MediaPll.update
  dsimp only
  split <;> rfl

theorem feed_clock (s : MediaClockSession) (resp : RtcpTimeSyncPacket) (now : Instant) :
    (s.feed resp now).clock = s.clock := by
  unfold MediaClockSession.feed
  dsimp only
  split
  · split <;> split <;> rfl
  · split
    · rfl
    · split
      · rfl
      · split <;> rfl

/-- **Feeding keeps the offset good**, if the one of the response is good where it counts. -/
theorem feed_tracks {good good' : Int → Prop} {s : MediaClockSession} (hs : Tracks good s)
    (hgood : ∀ offset, good offset → good' offset) (resp : RtcpTimeSyncPacket) (now : Instant)
    (hresp : accepts s resp = true → good' (resp.offsetNs
      (.fromMonotonicNanos (s.clock.elapsedNs now + ntpUnixEpochOffsetNs)))) :
    Tracks good' (s.feed resp now) := by
  have hrtt := rttNs_lt resp
    (.fromMonotonicNanos (s.clock.elapsedNs now + ntpUnixEpochOffsetNs))
  unfold accepts at hresp
  unfold MediaClockSession.feed
  dsimp only
  cases hinit : s.initialized with
  | false =>
    rw [hinit] at hresp
    have hoffset := hresp rfl
    simp only [Bool.not_false, if_true]
    split
    · split
      · exact ⟨fun _ => ⟨_, rfl, hoffset⟩, nofun⟩
      · exact ⟨nofun, fun _ => .inr hoffset⟩
    · rename_i hworse
      have hbest : good' s.bestOffset := by
        obtain hmax | hbest := hs.probe hinit
        · rw [hmax] at hworse
          exact absurd hrtt hworse
        · exact hgood _ hbest
      split
      · exact ⟨fun _ => ⟨_, rfl, hbest⟩, nofun⟩
      · exact ⟨nofun, fun _ => .inr hbest⟩
  | true =>
    obtain ⟨pll, hpll, hkept⟩ := hs.ready hinit
    simp only [Bool.not_true, Bool.false_eq_true, if_false]
    split
    · exact ⟨fun _ => ⟨pll, hpll, hgood _ hkept⟩, fun h => absurd (hinit.symm.trans h) (by decide)⟩
    · rename_i hlast
      rw [not_not] at hlast
      rw [hinit, hlast] at hresp
      have hoffset := hresp (by simp)
      rw [hpll]
      dsimp only
      split
      · exact ⟨fun _ => ⟨_, rfl, hoffset⟩, nofun⟩
      · refine ⟨fun _ => ⟨_, rfl, ?_⟩, nofun⟩
        rw [update_offsetNs]
        exact hgood _ hkept

/-! ## Runs -/

/-- An offset that an accepted exchange bears out. -/
def Good (accepted : List Exchange) (difference offset : Int) : Prop :=
  offset.natAbs ≤ 2 ^ 32 * 1000000000 + 1 ∧
    ∃ x ∈ accepted, x.sent ≤ x.fed ∧ OffsetWithin offset difference x

/-- The packets carry the stamps of the times they were made at, in their order, and the session
has an offset that is borne out. -/
structure Sound (c : TwoClocks) (k : Int) (s : Network) : Prop where
  headUnit : s.headUnit.clock = c.headUnit
  phone : s.phone.clock = c.phone
  now : c.start ≤ s.now
  requests : ∀ r ∈ s.requests, Stamped k r.1.t3 (r.2 + c.shiftHeadUnit) ∧ r.2 ≤ s.now
  responses : ∀ r ∈ s.responses, Stamped k r.1.t1 (r.2.1 + c.shiftHeadUnit) ∧
    Stamped k r.1.t2 (r.2.2 + c.shiftPhone) ∧ r.1.t3 = r.1.t2 ∧ r.2.1 ≤ r.2.2 ∧ r.2.2 ≤ s.now
  tracks : Tracks (Good s.accepted c.difference) s.headUnit

theorem sound_fresh (c : TwoClocks) (k : Int) {begin : Int} (h : c.start ≤ begin) :
    Sound c k (c.freshNetwork begin) :=
  ⟨rfl, rfl, h, nofun, nofun, ⟨nofun, fun _ => .inl rfl⟩⟩

theorem Sound.step {c : TwoClocks} {k : Int} {s t : Network} {action : NetworkAction}
    (hs : Sound c k s) (hwindow : WithinWindow c k s action)
    (h : networkStep s action = some t) : Sound c k t := by
  obtain ⟨hhu, hphone⟩ := hwindow
  cases action with
  | wait nanos =>
    obtain rfl := Option.some.inj h
    have hlater : s.now ≤ s.now + nanos := Int.le_add_of_nonneg_right (Int.natCast_nonneg nanos)
    refine ⟨hs.headUnit, hs.phone, Int.le_trans hs.now hlater, fun r hr => ?_, fun r hr => ?_,
      hs.tracks⟩
    · obtain ⟨hstamp, hsent⟩ := hs.requests r hr
      exact ⟨hstamp, Int.le_trans hsent hlater⟩
    · obtain ⟨h1, h2, h3, hsent, hanswered⟩ := hs.responses r hr
      exact ⟨h1, h2, h3, hsent, Int.le_trans hanswered hlater⟩
  | ping =>
    obtain rfl := Option.some.inj h
    have helapsed : s.headUnit.clock.elapsedNs s.now = s.now + c.shiftHeadUnit := by
      rw [hs.headUnit]
      exact c.headUnitTicks.elapsed s.now hs.now
    refine ⟨hs.headUnit, hs.phone, hs.now, fun r hr => ?_, hs.responses,
      ⟨hs.tracks.ready, hs.tracks.probe⟩⟩
    obtain hold | hnew := List.mem_append.mp hr
    · exact hs.requests r hold
    · obtain rfl := List.mem_singleton.mp hnew
      refine ⟨?_, Int.le_refl _⟩
      show Stamped k (.fromMonotonicNanos (s.headUnit.clock.elapsedNs s.now + _)) _
      rw [helapsed]
      exact stamped_of_inWindow hhu
  | respond i =>
    obtain ⟨⟨ping, sent⟩, hping, rfl⟩ := Option.map_eq_some_iff.mp h
    obtain ⟨hstamp, hsent⟩ := hs.requests _ (List.mem_of_getElem? hping)
    have helapsed : s.phone.clock.elapsedNs s.now = s.now + c.shiftPhone := by
      rw [hs.phone]
      exact c.phoneTicks.elapsed s.now hs.now
    refine ⟨hs.headUnit, hs.phone, hs.now, hs.requests, fun r hr => ?_, hs.tracks⟩
    obtain hold | hnew := List.mem_append.mp hr
    · exact hs.responses r hold
    · obtain rfl := List.mem_singleton.mp hnew
      refine ⟨hstamp, ?_, rfl, hsent, Int.le_refl _⟩
      show Stamped k (.fromMonotonicNanos (s.phone.clock.elapsedNs s.now + _)) _
      rw [helapsed]
      exact stamped_of_inWindow hphone
  | feed i =>
    obtain ⟨⟨resp, sent, answered⟩, hresp, rfl⟩ := Option.map_eq_some_iff.mp h
    obtain ⟨h1, h2, h3, hsent, hanswered⟩ := hs.responses _ (List.mem_of_getElem? hresp)
    have helapsed : s.headUnit.clock.elapsedNs s.now = s.now + c.shiftHeadUnit := by
      rw [hs.headUnit]
      exact c.headUnitTicks.elapsed s.now hs.now
    refine ⟨(feed_clock s.headUnit resp s.now).trans hs.headUnit, hs.phone, hs.now, hs.requests,
      hs.responses, ?_⟩
    refine feed_tracks hs.tracks ?_ resp s.now ?_
    · rintro offset ⟨hbound, x, hx, hrest⟩
      refine ⟨hbound, x, ?_, hrest⟩
      dsimp only
      split
      · exact List.mem_append_left _ hx
      · exact hx
    · intro haccepts
      rw [helapsed]
      have hexchange := offset_of_exchange (x := ⟨sent, answered, s.now⟩) h1 h2 h3
        (stamped_of_inWindow hhu) hsent hanswered
      refine ⟨natAbs_offsetNs_le resp _, ⟨sent, answered, s.now⟩, ?_,
        Int.le_trans hsent hanswered, hexchange⟩
      dsimp only
      rw [if_pos haccepts]
      exact List.mem_append_right _ (List.mem_singleton_self _)

/-- **The error of the offset is bounded**, and that of the stamps that are decoded with it, as long
as the NTP seconds of both clocks stay in one window of the signed reading. -/
theorem offset_bounded (c : TwoClocks) (k begin : Int) (hbegin : c.start ≤ begin)
    (actions : List NetworkAction) {t : Network}
    (hwindow : AllSteps networkStep (WithinWindow c k) (c.freshNetwork begin) actions)
    (hrun : run networkStep (c.freshNetwork begin) actions = some t) :
    Synchronised t c.difference fun pts => c.start ≤ pts ∧ InWindow 0 (pts + c.shiftPhone) := by
  have hsound : Sound c k t := run_invariant_of_allSteps (Sound c k) (WithinWindow c k)
    (fun s action u hs hC h => hs.step hC h) (sound_fresh c k hbegin) hwindow hrun
  intro hinit
  obtain ⟨pll, hpll, hbound, x, hx, hordered, hwithin⟩ := hsound.tracks.ready hinit
  refine ⟨pll, hpll, x, hx, hordered, hwithin, fun pts hpts => ?_⟩
  obtain ⟨hstart, hreadable⟩ := hpts
  obtain ⟨e, hlow, hhigh, hstamp⟩ := asNanos_fromMonotonicNanos hreadable
  have hencode : t.phone.encodeLocal pts = .fromMonotonicNanos (pts + c.shiftPhone) := by
    unfold MediaClockSession.encodeLocal
    rw [hsound.phone, c.phoneTicks.encode pts hstart]
  have hlocal : pll.remoteToLocal (NtpU64.asNanos (t.phone.encodeLocal pts)) =
      pts + c.shiftPhone - e - pll.offsetNs := by
    rw [hencode, hstamp]
    show pts + c.shiftPhone - 2 ^ 32 * 0 * 1000000000 - e - pll.offsetNs = _
    omega
  have hsmall : (pts + c.shiftPhone - e - pll.offsetNs).natAbs < 2 ^ 63 := by
    obtain ⟨hfrom, hto⟩ := hreadable
    omega
  refine ⟨pts + c.shiftPhone - e - pll.offsetNs - c.shiftHeadUnit, ?_, ?_⟩
  · unfold MediaClockSession.decodeRemote
    rw [hpll, hinit]
    dsimp only
    rw [hlocal, hsound.headUnit, c.headUnitTicks.decode _ hsmall]
    rfl
  · unfold OffsetWithin TwoClocks.difference at hwithin
    omega

/-! ## Runs of the monotonic clock -/

theorem clockMonotonic_ticks (start : Int) {baseNs : Nat} (hbase : baseNs < 2 ^ 63) :
    Ticks (clockMonotonic start baseNs) (baseNs - start) start := by
  have hreads : ∀ now : Int, start ≤ now →
      baseNs + max (now - start) 0 = now + (baseNs - start) := by omega
  refine ⟨hreads, hreads, fun ns hns => ?_⟩
  have hplus : (ns - baseNs) ≥ 0 → start + (ns - baseNs) % 2 ^ 64 = ns - (baseNs - start) := by
    omega
  have hminus : ¬(ns - baseNs) ≥ 0 →
      start - (-(ns - baseNs)) % 2 ^ 64 = ns - (baseNs - start) := by
    omega
  unfold clockMonotonic
  dsimp only
  split
  · exact hplus ‹_›
  · exact hminus ‹_›

/-- Two monotonic clocks that start at 0, the phone's at a base. -/
def monotonicClocks (baseNs : Nat) (hbase : baseNs < 2 ^ 63) : TwoClocks where
  headUnit := clockMonotonic 0 0
  phone := clockMonotonic 0 baseNs
  shiftHeadUnit := (0 : Nat) - 0
  shiftPhone := baseNs - 0
  start := 0
  headUnitTicks := clockMonotonic_ticks 0 (by decide : 0 < 2 ^ 63)
  phoneTicks := clockMonotonic_ticks 0 hbase

/-- An answered ping, taken as often as the initialisation needs. -/
def threeFeeds : List NetworkAction := [.ping, .respond 0, .feed 0, .feed 0, .feed 0]

/-- What they leave the head unit with, and what it decodes a stamp of the phone to. -/
def outcome (c : TwoClocks) (begin pts : Int) :
    Option (Bool × Option Int × List Exchange × Option Int) :=
  (run networkStep (c.freshNetwork begin) threeFeeds).map fun t =>
    (t.headUnit.initialized, t.headUnit.pll.map (·.offsetNs), t.accepted,
      t.headUnit.decodeRemote (t.phone.encodeLocal pts))

/-- Here the seconds of both clocks lie in the window of number 1. -/
theorem offset_bounded_from_zero :
    AllSteps networkStep (WithinWindow (monotonicClocks 5 (by decide)) 1)
      ((monotonicClocks 5 (by decide)).freshNetwork 0) threeFeeds ∧
    ∃ t, run networkStep ((monotonicClocks 5 (by decide)).freshNetwork 0) threeFeeds = some t ∧
      t.headUnit.initialized = true ∧
      Synchronised t (monotonicClocks 5 (by decide)).difference
        fun pts => 0 ≤ pts ∧ InWindow 0 (pts + (monotonicClocks 5 (by decide)).shiftPhone) := by
  have hwindow : AllSteps networkStep (WithinWindow (monotonicClocks 5 (by decide)) 1)
      ((monotonicClocks 5 (by decide)).freshNetwork 0) threeFeeds := by
    unfold WithinWindow InWindow
    decide
  have hinit : (outcome (monotonicClocks 5 (by decide)) 0 0).map (·.1) = some true := by
    decide
  obtain ⟨_, houtcome, hinit⟩ := Option.map_eq_some_iff.mp hinit
  obtain ⟨t, hrun, rfl⟩ := Option.map_eq_some_iff.mp houtcome
  exact ⟨hwindow, t, hrun, hinit,
    offset_bounded (monotonicClocks 5 (by decide)) 1 0 (by decide) threeFeeds hwindow hrun⟩

/-- **Windows end**: with both clocks in one window a stamp of the phone is decoded to an instant
2^32 s earlier, and with the clocks in two windows the offset itself is off. -/
theorem windows_apart :
    (¬ ∀ (c : TwoClocks) (k begin : Int), c.start ≤ begin →
      c.difference.natAbs < 2 ^ 31 * 1000000000 →
      ∀ (actions : List NetworkAction) (t : Network),
        AllSteps networkStep (WithinWindow c k) (c.freshNetwork begin) actions →
        run networkStep (c.freshNetwork begin) actions = some t →
        Synchronised t c.difference fun pts => c.start ≤ pts) ∧
    ¬ ∀ (c : TwoClocks) (begin : Int), c.start ≤ begin →
      c.difference.natAbs < 2 ^ 31 * 1000000000 →
      ∀ (actions : List NetworkAction) (t : Network),
        run networkStep (c.freshNetwork begin) actions = some t →
        Synchronised t c.difference fun _ => False := by
  constructor
  · intro h
    have hwindow : AllSteps networkStep (WithinWindow (monotonicClocks 0 (by decide)) 1)
        ((monotonicClocks 0 (by decide)).freshNetwork (2 ^ 31 * 1000000000)) threeFeeds := by
      unfold WithinWindow InWindow
      decide
    have houtcome : outcome (monotonicClocks 0 (by decide)) (2 ^ 31 * 1000000000)
        (2 ^ 31 * 1000000000) = some (true, some 0,
          .replicate 3 ⟨2 ^ 31 * 1000000000, 2 ^ 31 * 1000000000, 2 ^ 31 * 1000000000⟩,
          some (-2 ^ 31 * 1000000000)) := by
      decide
    obtain ⟨t, hrun, htold⟩ := Option.map_eq_some_iff.mp houtcome
    simp only [Prod.mk.injEq] at htold
    obtain ⟨hinit, -, haccepted, hdecoded⟩ := htold
    obtain ⟨pll, -, x, hx, -, -, hdecodes⟩ := h (monotonicClocks 0 (by decide)) 1
      (2 ^ 31 * 1000000000) (by decide) (by decide) threeFeeds t hwindow hrun hinit
    rw [haccepted] at hx
    obtain rfl := List.eq_of_mem_replicate hx
    obtain ⟨decoded, hsome, hwithin⟩ := hdecodes (2 ^ 31 * 1000000000) (by decide)
    obtain rfl := Option.some.inj (hdecoded.symm.trans hsome)
    exact absurd hwithin (by decide)
  · intro h
    have houtcome : outcome (monotonicClocks 1000000000 (by decide)) (4233462143 * 1000000000) 0 =
        some (true, some (-4294967295 * 1000000000), .replicate 3 ⟨4233462143 * 1000000000,
          4233462143 * 1000000000, 4233462143 * 1000000000⟩, some (4294967296 * 1000000000)) := by
      decide
    obtain ⟨t, hrun, htold⟩ := Option.map_eq_some_iff.mp houtcome
    simp only [Prod.mk.injEq] at htold
    obtain ⟨hinit, hoffset, haccepted, -⟩ := htold
    obtain ⟨pll, hpll, x, hx, -, hwithin, -⟩ := h (monotonicClocks 1000000000 (by decide))
      (4233462143 * 1000000000) (by decide) (by decide) threeFeeds t hrun hinit
    rw [haccepted] at hx
    obtain rfl := List.eq_of_mem_replicate hx
    have hfar : pll.offsetNs = -4294967295 * 1000000000 := by
      rw [hpll] at hoffset
      exact Option.some.inj hoffset
    unfold OffsetWithin at hwithin
    rw [hfar] at hwithin
    exact absurd hwithin (by decide)

end Catplay.Analysis.Timing
