import Catplay.Analysis.Rtp.Pacing
import Catplay.Library.Run

/-!
# What the pacer lets through

In every run that commits only what was permitted, the sent audio stays within the initial credit
and the time since the first packet, and the datagrams within the burst and one for each interval;
a batch is permitted as its packets would be one by one, and the wake-up is the first instant at
which there is a permit (`pacer_exact`). The media deadline is cut to the 64 bits of a duration, so
that the first bound ends after 584 years (`pacer_clamps`).
-/

set_option autoImplicit false

namespace Catplay.Analysis.Rtp.Budget

open Catplay.Library.Run Catplay.Model.Rtp Catplay.Model.Rtp.RtpTxPacer

/-! ## The two limits -/

section Limits

variable {pacer : RtpTxPacer}

/-- The bound of the arrival times. -/
def tolerance (pacer : RtpTxPacer) : Duration := pacer.udpInterval * (pacer.udpBurst - 1)

/-- `udpDeadline` of a pacer whose tolerance is a duration. -/
def udpAt (pacer : RtpTxPacer) (now : Instant) : Option Instant → Instant
  | none => now
  | some tat => if tolerance pacer ≤ tat then tat - tolerance pacer else now

theorem udpDeadline_eq (h : Anchored pacer) (now : Instant) (tat : Option Instant) :
    pacer.udpDeadline now tat = some (udpAt pacer now tat) := by
  unfold RtpTxPacer.udpDeadline
  cases tat with
  | none => rfl
  | some tat =>
    dsimp only
    rw [h.udpTolerance]
    rfl

/-- **The datagrams are not ahead** of their arrival times by more than the tolerance. -/
theorem udpAt_le_iff {now : Instant} {tat : Option Instant} :
    udpAt pacer now tat ≤ now ↔ ∀ arrival ∈ tat, arrival ≤ now + tolerance pacer := by
  cases tat with
  | none => simp [udpAt]
  | some tat =>
    unfold udpAt
    simp only [Option.mem_some_iff, forall_eq']
    split
    · exact Nat.sub_le_iff_le_add
    · rename_i hlow
      refine ⟨fun _ => ?_, fun _ => Nat.le_refl _⟩
      exact Nat.le_trans (Nat.le_of_not_le hlow) (Nat.le_add_left _ _)

/-- The nanoseconds that the media deadline waits, before they are cut to 64 bits. -/
theorem div_ceil_le_iff {samples rate elapsed : Nat} (hrate : 0 < rate) :
    (samples * nsPerSec + rate - 1) / rate ≤ elapsed ↔ samples ≤ elapsed * rate / nsPerSec := by
  have hsec : 0 < nsPerSec := by decide
  rw [Nat.le_div_iff_mul_le hsec, ← Nat.lt_succ_iff, Nat.div_lt_iff_lt_mul hrate, Nat.succ_mul]
  omega

/-- **The sent audio** that the deadline allows: the credit and the time since the anchor. -/
theorem mediaDeadline_le {anchor : MediaAnchor} {now : Instant} {packet : RtpPacketMeta}
    (hrate : 0 < pacer.sampleRate) (hanchor : pacer.anchor = some anchor)
    (hnow : now - anchor.instant < 2 ^ 64 - 1) (h : pacer.mediaDeadline now packet ≤ now) :
    packet.endTs - anchor.firstTs ≤
      anchor.initialCredit + (now - anchor.instant) * pacer.sampleRate / nsPerSec := by
  unfold mediaDeadline at h
  rw [hanchor] at h
  dsimp only at h
  split at h
  · rename_i hcredit
    exact Nat.le_trans hcredit (Nat.le_add_right _ _)
  · rename_i hcredit
    have hmin : min (((packet.endTs - anchor.firstTs - anchor.initialCredit) * nsPerSec +
        pacer.sampleRate - 1) / pacer.sampleRate) (2 ^ 64 - 1) ≤ now - anchor.instant :=
      Nat.le_sub_of_add_le' h
    have hceil := (min_le_iff.mp hmin).resolve_right (Nat.not_le.mpr hnow)
    rw [div_ceil_le_iff hrate] at hceil
    omega

/-- **At the instant of the anchor** only the credit can be sent. -/
theorem mediaDeadline_le_anchor {anchor : MediaAnchor} {packet : RtpPacketMeta}
    (hrate : 0 < pacer.sampleRate) (hanchor : pacer.anchor = some anchor) :
    pacer.mediaDeadline anchor.instant packet ≤ anchor.instant ↔
      packet.endTs - anchor.firstTs ≤ anchor.initialCredit := by
  constructor
  · intro h
    have hbound := mediaDeadline_le hrate hanchor (by rw [Nat.sub_self]; decide) h
    rw [Nat.sub_self, Nat.zero_mul, Nat.zero_div] at hbound
    exact hbound
  · intro h
    unfold mediaDeadline
    rw [hanchor]
    dsimp only
    rw [if_pos h]

/-- The limits do not move while nothing is sent. -/
theorem mediaDeadline_later {now later : Instant} (hnow : now ≤ later) (packet : RtpPacketMeta) :
    pacer.mediaDeadline later packet ≤ later ↔ pacer.mediaDeadline now packet ≤ later := by
  unfold mediaDeadline
  split
  · exact ⟨fun _ => hnow, fun _ => Nat.le_refl _⟩
  · dsimp only
    split
    · exact ⟨fun _ => hnow, fun _ => Nat.le_refl _⟩
    · exact Iff.rfl

theorem udpAt_later {now later : Instant} (hnow : now ≤ later) (tat : Option Instant) :
    udpAt pacer later tat ≤ later ↔ udpAt pacer now tat ≤ later := by
  cases tat with
  | none => exact ⟨fun _ => hnow, fun _ => Nat.le_refl _⟩
  | some tat =>
    unfold udpAt
    dsimp only
    split
    · exact Iff.rfl
    · exact ⟨fun _ => hnow, fun _ => Nat.le_refl _⟩

end Limits

/-! ## One turn of the loop -/

section Loop

variable {pacer : RtpTxPacer} {now : Instant} {packet : RtpPacketMeta}
  {packets : List RtpPacketMeta} {permits : Nat} {tat : Option Instant}
  {first : Option RtpPacketMeta}

/-- The media limit of the loop: the credit alone as long as there is no anchor. -/
def MediaAllows (pacer : RtpTxPacer) (now : Instant) (initial packet : RtpPacketMeta) : Prop :=
  match pacer.anchor with
  | some _ => pacer.mediaDeadline now packet ≤ now
  | none => packet.endTs - initial.firstTs ≤ pacer.initialCredit initial

/-- **A packet that both limits allow** is permitted. -/
theorem inspectLoop_ready (h : Anchored pacer) (hpacket : packet.firstTs < packet.endTs)
    (hmedia : MediaAllows pacer now (first.getD packet) packet) (hudp : udpAt pacer now tat ≤ now) :
    pacer.inspectLoop now (packet :: packets) permits tat first =
      pacer.inspectLoop now packets (permits + 1) (pacer.udpAdvance now tat)
        (some (first.getD packet)) := by
  conv_lhs => unfold inspectLoop
  rw [if_pos hpacket, udpDeadline_eq h]
  unfold MediaAllows at hmedia
  cases hanchor : pacer.anchor with
  | none =>
    rw [hanchor] at hmedia
    dsimp only at hmedia ⊢
    rw [Option.isSome_none, if_neg Bool.false_ne_true, if_neg (Nat.not_lt.mpr hmedia)]
    dsimp only
    rw [if_neg (Nat.not_lt.mpr (Nat.max_le.mpr ⟨Nat.le_refl _, hudp⟩))]
  | some anchor =>
    rw [hanchor] at hmedia
    dsimp only at hmedia ⊢
    rw [Option.isSome_some, if_pos rfl]
    dsimp only
    rw [if_neg (Nat.not_lt.mpr (Nat.max_le.mpr ⟨hmedia, hudp⟩))]

/-- **Any other packet** ends the loop; the first one says when it is ready. -/
theorem inspectLoop_waits (h : Anchored pacer) (hpacket : packet.firstTs < packet.endTs)
    (hready : ¬(MediaAllows pacer now (first.getD packet) packet ∧ udpAt pacer now tat ≤ now)) :
    ∃ wakeAt, pacer.inspectLoop now (packet :: packets) permits tat first =
        some ⟨permits, wakeAt⟩ ∧
      (first = none → permits = 0 →
        wakeAt = some (max (pacer.mediaDeadline now packet) (udpAt pacer now tat))) := by
  unfold inspectLoop
  rw [if_pos hpacket, udpDeadline_eq h]
  unfold MediaAllows at hready
  cases hanchor : pacer.anchor with
  | none =>
    rw [hanchor] at hready
    dsimp only at hready ⊢
    rw [Option.isSome_none, if_neg Bool.false_ne_true]
    by_cases hcredit : packet.endTs - (first.getD packet).firstTs ≤
        pacer.initialCredit (first.getD packet)
    · have hudp : ¬udpAt pacer now tat ≤ now := fun hudp => hready ⟨hcredit, hudp⟩
      have hdeadline : pacer.mediaDeadline now packet = now := by
        unfold mediaDeadline
        rw [hanchor]
      rw [if_neg (Nat.not_lt.mpr hcredit), hdeadline]
      dsimp only
      rw [if_pos (Nat.lt_of_lt_of_le (Nat.lt_of_not_le hudp) (Nat.le_max_right _ _))]
      exact ⟨_, rfl, fun _ hzero => if_pos hzero⟩
    · rw [if_pos (Nat.lt_of_not_le hcredit)]
      refine ⟨_, rfl, fun hfirst => ?_⟩
      rw [hfirst] at hcredit
      exact absurd (Nat.le_max_right _ _) hcredit
  | some anchor =>
    rw [hanchor] at hready
    dsimp only at hready ⊢
    rw [Option.isSome_some, if_pos rfl]
    dsimp only
    rw [if_pos (Nat.lt_of_not_le fun hle => hready (Nat.max_le.mp hle))]
    exact ⟨_, rfl, fun _ hzero => if_pos hzero⟩

/-! ## What the permitted packets have in common -/

/-- **The permitted packets** are all within the media limit. -/
theorem inspectLoop_media (h : Anchored pacer)
    (hpositive : ∀ later ∈ packets, later.firstTs < later.endTs) {initial : RtpPacketMeta}
    (hinitial : ∀ head ∈ packets.head?, first.getD head = initial) {decision : PaceDecision}
    (hloop : pacer.inspectLoop now packets permits tat first = some decision) :
    ∀ later ∈ packets.take (decision.permits - permits),
      MediaAllows pacer now initial later := by
  induction packets generalizing permits tat first with
  | nil => simp
  | cons packet packets ih =>
    have hhere := hpositive packet List.mem_cons_self
    have hfirst : first.getD packet = initial := hinitial packet rfl
    by_cases hready : MediaAllows pacer now (first.getD packet) packet ∧ udpAt pacer now tat ≤ now
    · rw [inspectLoop_ready h hhere hready.1 hready.2, hfirst] at hloop
      have hrest := ih (fun later hlater => hpositive later (List.mem_cons_of_mem _ hlater))
        (fun _ _ => rfl) hloop
      rw [hfirst] at hready
      intro later hlater
      cases hcount : decision.permits - permits with
      | zero =>
        rw [hcount] at hlater
        cases hlater
      | succ count =>
        rw [hcount, List.take_succ_cons] at hlater
        rcases List.mem_cons.mp hlater with rfl | hin
        · exact hready.1
        · apply hrest later
          have hless : decision.permits - (permits + 1) = count := by omega
          rw [hless]
          exact hin
    · obtain ⟨wakeAt, hwaits, -⟩ :=
        @inspectLoop_waits pacer now packet packets permits tat first h hhere hready
      obtain rfl := Option.some.inj (hwaits.symm.trans hloop)
      rw [Nat.sub_self]
      simp

/-- **Several permitted packets** leave room for all of them in front of the tolerance. -/
theorem inspectLoop_udp (h : Anchored pacer)
    (hpositive : ∀ later ∈ packets, later.firstTs < later.endTs) {decision : PaceDecision}
    (hloop : pacer.inspectLoop now packets permits tat first = some decision) {more : Nat}
    (hmore : decision.permits = permits + (more + 1)) :
    more * pacer.udpInterval ≤ tolerance pacer ∧
      ∀ arrival ∈ tat, arrival + more * pacer.udpInterval ≤ now + tolerance pacer := by
  induction packets generalizing permits tat first more with
  | nil =>
    unfold inspectLoop at hloop
    obtain rfl := Option.some.inj hloop
    dsimp only at hmore
    omega
  | cons packet packets ih =>
    have hhere := hpositive packet List.mem_cons_self
    by_cases hready : MediaAllows pacer now (first.getD packet) packet ∧ udpAt pacer now tat ≤ now
    · rw [inspectLoop_ready h hhere hready.1 hready.2] at hloop
      cases more with
      | zero =>
        rw [Nat.zero_mul]
        exact ⟨Nat.zero_le _, udpAt_le_iff.mp hready.2⟩
      | succ more =>
        have hless : decision.permits = permits + 1 + (more + 1) := by omega
        have hrest : max (tat.getD now) now + pacer.udpInterval + more * pacer.udpInterval ≤
            now + tolerance pacer :=
          (ih (fun later hlater => hpositive later (List.mem_cons_of_mem _ hlater))
            hloop hless).2 _ rfl
        rw [Nat.add_assoc, Nat.add_comm pacer.udpInterval, ← Nat.succ_mul] at hrest
        refine ⟨?_, fun arrival harrival => ?_⟩
        · exact Nat.le_of_add_le_add_left
            (Nat.le_trans (Nat.add_le_add_right (Nat.le_max_right _ _) _) hrest)
        · have hget : tat.getD now = arrival := by rw [harrival, Option.getD_some]
          have hmax : arrival ≤ max (tat.getD now) now := by
            rw [hget]
            exact Nat.le_max_left _ _
          exact Nat.le_trans (Nat.add_le_add_right hmax _) hrest
    · obtain ⟨wakeAt, hwaits, -⟩ :=
        @inspectLoop_waits pacer now packet packets permits tat first h hhere hready
      obtain rfl := Option.some.inj (hwaits.symm.trans hloop)
      dsimp only at hmore
      omega

end Loop

/-! ## What is sent -/

theorem commitOne_eq {pacer pacer' : RtpTxPacer} {now : Instant} {packet : RtpPacketMeta}
    (h : pacer.commitOne now packet = some pacer') :
    pacer' = { pacer with
      anchor := some (pacer.anchor.getD ⟨now, packet.firstTs, pacer.initialCredit packet⟩)
      udpTat := pacer.udpAdvance now pacer.udpTat
      lastEndTs := some packet.endTs } := by
  unfold commitOne at h
  split at h
  · split at h
    · cases h
    · exact (Option.some.inj h).symm
  · cases h

/-- **Sending** some packets at one instant: the first of all sets the anchor, and each moves the
arrival time by an interval. -/
theorem commit_effect {pacer pacer' : RtpTxPacer} {now : Instant} {sent : List RtpPacketMeta}
    (h : pacer.commit now sent = some pacer') :
    pacer'.sampleRate = pacer.sampleRate ∧ pacer'.writeAhead = pacer.writeAhead ∧
      pacer'.udpInterval = pacer.udpInterval ∧ pacer'.udpBurst = pacer.udpBurst ∧
      pacer'.anchor = pacer.anchor.or (sent.head?.map fun first =>
        ⟨now, first.firstTs, pacer.initialCredit first⟩) ∧
      (sent = [] → pacer' = pacer) ∧
      (sent ≠ [] → ∃ arrival', pacer'.udpTat = some arrival' ∧
        now + sent.length * pacer.udpInterval ≤ arrival' ∧
        ∀ arrival ∈ pacer.udpTat, arrival + sent.length * pacer.udpInterval ≤ arrival') := by
  induction sent generalizing pacer with
  | nil =>
    obtain rfl := Option.some.inj h
    exact ⟨rfl, rfl, rfl, rfl, Option.or_none.symm, fun _ => rfl, fun hne => absurd rfl hne⟩
  | cons packet sent ih =>
    obtain ⟨pacer₁, hone, hrest⟩ := Option.bind_eq_some_iff.mp h
    have hpacer₁ := commitOne_eq hone
    obtain ⟨hrate, hahead, hinterval, hburst, hanchor, hnil, hcons⟩ := ih hrest
    have hadvance : pacer₁.udpTat =
        some (max (pacer.udpTat.getD now) now + pacer.udpInterval) := by
      rw [hpacer₁]
      rfl
    have hnow : now ≤ max (pacer.udpTat.getD now) now := Nat.le_max_right _ _
    have harrival : ∀ arrival ∈ pacer.udpTat, arrival ≤ max (pacer.udpTat.getD now) now := by
      intro arrival hmem
      rw [Option.mem_def.mp hmem, Option.getD_some]
      exact Nat.le_max_left _ _
    have hinterval₁ : pacer₁.udpInterval = pacer.udpInterval := by rw [hpacer₁]
    refine ⟨?_, ?_, ?_, ?_, ?_, fun hno => absurd hno (List.cons_ne_nil _ _), fun _ => ?_⟩
    · rw [hrate, hpacer₁]
    · rw [hahead, hpacer₁]
    · rw [hinterval, hinterval₁]
    · rw [hburst, hpacer₁]
    · rw [hanchor, hpacer₁]
      cases pacer.anchor <;> rfl
    · rw [List.length_cons, Nat.succ_mul]
      cases sent with
      | nil =>
        rw [hnil rfl, List.length_nil, Nat.zero_mul, Nat.zero_add]
        exact ⟨_, hadvance, Nat.add_le_add_right hnow _,
          fun arrival hmem => Nat.add_le_add_right (harrival arrival hmem) _⟩
      | cons next sent =>
        obtain ⟨arrival', htat', -, hlater⟩ := hcons (List.cons_ne_nil _ _)
        have hle := hlater _ hadvance
        rw [hinterval₁, Nat.add_assoc, Nat.add_comm pacer.udpInterval] at hle
        exact ⟨arrival', htat', Nat.le_trans (Nat.add_le_add_right hnow _) hle,
          fun arrival hmem => Nat.le_trans (Nat.add_le_add_right (harrival arrival hmem) _) hle⟩

/-! ## Runs -/

/-- A pacer with the packets sent so far and when, and the time. -/
structure Recorded where
  pacer : RtpTxPacer
  log : List (Instant × RtpPacketMeta)
  now : Instant

/-- Some packets are looked at, and those sent are committed, at the same time or later. -/
structure Turn where
  inspectAt : Instant
  packets : List RtpPacketMeta
  maxBatch : Nat
  sent : Nat
  commitAt : Instant

/-- A turn commits no more than what was permitted. -/
def pace (s : Recorded) (turn : Turn) : Option Recorded := do
  let decision ← s.pacer.inspect turn.inspectAt turn.packets turn.maxBatch
  if turn.sent ≤ decision.permits then
    (s.pacer.commit turn.commitAt (turn.packets.take turn.sent)).map fun pacer =>
      ⟨pacer, s.log ++ (turn.packets.take turn.sent).map fun packet => (turn.commitAt, packet),
        turn.commitAt⟩
  else none

/-- Time does not go back, and the packets are behind those sent. -/
def InTime (s : Recorded) (turn : Turn) : Prop :=
  s.now ≤ turn.inspectAt ∧ turn.inspectAt ≤ turn.commitAt ∧
    InOrder (s.pacer.lastEndTs.getD 0) turn.packets

/-- How many packets were sent at `start` or later. -/
def sentFrom (start : Instant) (log : List (Instant × RtpPacketMeta)) : Nat :=
  (log.filter fun sent => start ≤ sent.1).length

/-- How many packets were sent from `start` to `stop`. -/
def sentWithin (start stop : Instant) (log : List (Instant × RtpPacketMeta)) : Nat :=
  (log.filter fun sent => start ≤ sent.1 ∧ sent.1 ≤ stop).length

/-- What every run keeps of the pacer that it began with. -/
structure Kept (initial : RtpTxPacer) (s : Recorded) : Prop where
  anchored : Anchored s.pacer
  sampleRate : s.pacer.sampleRate = initial.sampleRate
  writeAhead : s.pacer.writeAhead = initial.writeAhead
  udpInterval : s.pacer.udpInterval = initial.udpInterval
  udpBurst : s.pacer.udpBurst = initial.udpBurst
  anchor : s.pacer.anchor = s.log.head?.map fun first =>
    ⟨first.1, first.2.firstTs, initial.initialCredit first.2⟩
  past : ∀ sent ∈ s.log, sent.1 ≤ s.now
  budget : ∀ sent ∈ s.log, ∀ anchor ∈ s.pacer.anchor, sent.1 - anchor.instant < 2 ^ 64 - 1 →
    sent.2.endTs - anchor.firstTs ≤
      anchor.initialCredit + (sent.1 - anchor.instant) * initial.sampleRate / nsPerSec
  arrival : ∀ start, 0 < sentFrom start s.log → ∃ arrival, s.pacer.udpTat = some arrival ∧
    start + sentFrom start s.log * initial.udpInterval ≤ arrival
  window : ∀ start duration, sentWithin start (start + duration) s.log ≤
    initial.udpBurst + duration / initial.udpInterval + 1

theorem sentFrom_append (start t : Instant) (log : List (Instant × RtpPacketMeta))
    (packets : List RtpPacketMeta) :
    sentFrom start (log ++ packets.map fun packet => (t, packet)) =
      sentFrom start log + if start ≤ t then packets.length else 0 := by
  unfold sentFrom
  rw [List.filter_append, List.length_append, List.filter_map, List.length_map]
  split
  · rename_i hle
    simp [Function.comp_def, hle]
  · rename_i hle
    simp [Function.comp_def, hle]

theorem sentWithin_append (start stop t : Instant) (log : List (Instant × RtpPacketMeta))
    (packets : List RtpPacketMeta) :
    sentWithin start stop (log ++ packets.map fun packet => (t, packet)) =
      sentWithin start stop log + if start ≤ t ∧ t ≤ stop then packets.length else 0 := by
  unfold sentWithin
  rw [List.filter_append, List.length_append, List.filter_map, List.length_map]
  split
  · rename_i hle
    simp [Function.comp_def, hle]
  · rename_i hle
    simp only [Function.comp_def, hle, decide_false, List.filter_false, List.length_nil]

theorem sentWithin_le (start stop : Instant) (log : List (Instant × RtpPacketMeta)) :
    sentWithin start stop log ≤ sentFrom start log := by
  apply List.Sublist.length_le
  apply List.monotone_filter_right
  intro sent hsent
  exact decide_eq_true (of_decide_eq_true hsent).1

theorem pace_cases {s s' : Recorded} {turn : Turn} (h : pace s turn = some s') :
    ∃ decision pacer', s.pacer.inspect turn.inspectAt turn.packets turn.maxBatch = some decision ∧
      turn.sent ≤ decision.permits ∧
      s.pacer.commit turn.commitAt (turn.packets.take turn.sent) = some pacer' ∧
      s' = ⟨pacer', s.log ++ (turn.packets.take turn.sent).map fun packet =>
        (turn.commitAt, packet), turn.commitAt⟩ := by
  obtain ⟨decision, hinspect, hrest⟩ := Option.bind_eq_some_iff.mp h
  split at hrest
  · rename_i hsent
    obtain ⟨pacer', hcommit, rfl⟩ := Option.map_eq_some_iff.mp hrest
    exact ⟨decision, pacer', hinspect, hsent, hcommit, rfl⟩
  · cases hrest

/-- **A batch fits the window** that it is sent in. -/
theorem Kept.window_batch {initial : RtpTxPacer} {s : Recorded} (h : Kept initial s)
    (hinterval : 0 < initial.udpInterval) {inspectAt commitAt : Instant}
    (hlater : inspectAt ≤ commitAt) {more : Nat}
    (hburst : more * initial.udpInterval ≤ initial.udpInterval * (initial.udpBurst - 1))
    (htat : ∀ arrival ∈ s.pacer.udpTat, arrival + more * initial.udpInterval ≤
      inspectAt + initial.udpInterval * (initial.udpBurst - 1))
    {start duration : Nat} (hin : start ≤ commitAt ∧ commitAt ≤ start + duration) :
    sentFrom start s.log + (more + 1) ≤ initial.udpBurst + duration / initial.udpInterval + 1 := by
  have hdiv : ∀ count : Nat, count * initial.udpInterval ≤
      duration + initial.udpInterval * (initial.udpBurst - 1) →
      count ≤ duration / initial.udpInterval + (initial.udpBurst - 1) := by
    intro count hcount
    rw [← Nat.add_mul_div_left _ _ hinterval, Nat.le_div_iff_mul_le hinterval]
    exact hcount
  rcases Nat.eq_zero_or_pos (sentFrom start s.log) with hzero | hpos
  · have hcount := hdiv more (Nat.le_trans hburst (Nat.le_add_left _ _))
    omega
  · obtain ⟨arrival, hsome, hbound⟩ := h.arrival start hpos
    have hfits := htat arrival hsome
    have hend : inspectAt ≤ start + duration := Nat.le_trans hlater hin.2
    have harith : ∀ a b c d e f g : Nat, a + b ≤ c → c + d ≤ e + f → e ≤ a + g →
        b + d ≤ g + f := by
      intro a b c d e f g hab hcd heg
      omega
    have hcount := hdiv (sentFrom start s.log + more) (by
      rw [Nat.add_mul]
      exact harith _ _ _ _ _ _ _ hbound hfits hend)
    omega

/-- **The audio of a batch** is within its budget when it is sent. -/
theorem Kept.budget_batch {initial : RtpTxPacer} {s : Recorded} (h : Kept initial s)
    (hrate : 0 < initial.sampleRate) {inspectAt commitAt : Instant}
    (hlater : inspectAt ≤ commitAt) {first packet : RtpPacketMeta}
    (hmedia : MediaAllows s.pacer inspectAt first packet) {anchor : MediaAnchor}
    (hanchor : s.pacer.anchor.or
      (some ⟨commitAt, first.firstTs, s.pacer.initialCredit first⟩) = some anchor)
    (hroom : commitAt - anchor.instant < 2 ^ 64 - 1) :
    packet.endTs - anchor.firstTs ≤
      anchor.initialCredit + (commitAt - anchor.instant) * initial.sampleRate / nsPerSec := by
  unfold MediaAllows at hmedia
  cases hold : s.pacer.anchor with
  | none =>
    rw [hold] at hmedia hanchor
    obtain rfl := Option.some.inj hanchor
    exact Nat.le_trans hmedia (Nat.le_add_right _ _)
  | some old =>
    rw [hold] at hmedia hanchor
    obtain rfl : old = anchor := Option.some.inj hanchor
    dsimp only at hmedia
    rw [← h.sampleRate] at hrate
    have hsub : inspectAt - old.instant ≤ commitAt - old.instant := Nat.sub_le_sub_right hlater _
    have hbound := mediaDeadline_le hrate hold (Nat.lt_of_le_of_lt hsub hroom) hmedia
    rw [h.sampleRate] at hbound
    exact Nat.le_trans hbound
      (Nat.add_le_add_left (Nat.div_le_div_right (Nat.mul_le_mul_right _ hsub)) _)

/-- **Every turn** keeps the bounds. -/
theorem pace_kept {initial : RtpTxPacer} (hrate : 0 < initial.sampleRate)
    (hinterval : 0 < initial.udpInterval) {s s' : Recorded} {turn : Turn} (h : Kept initial s)
    (hturn : InTime s turn) (hpace : pace s turn = some s') : Kept initial s' := by
  obtain ⟨decision, pacer', hinspect, hsent, hcommit, rfl⟩ := pace_cases hpace
  obtain ⟨hnow, hlater, horder⟩ := hturn
  have hpositive : ∀ packet ∈ turn.packets.take turn.maxBatch, packet.firstTs < packet.endTs :=
    fun packet hpacket => horder.positive packet (List.mem_of_mem_take hpacket)
  obtain ⟨decision', hspec, -, hhigh⟩ :=
    inspectLoop_spec h.anchored turn.inspectAt hpositive 0 s.pacer.udpTat none
  obtain rfl := Option.some.inj (hspec.symm.trans hinspect)
  rw [Nat.zero_add, List.length_take] at hhigh
  have hlength : (turn.packets.take turn.sent).length = turn.sent := by
    rw [List.length_take]
    omega
  have hmem : ∀ packet ∈ turn.packets.take turn.sent,
      packet ∈ (turn.packets.take turn.maxBatch).take decision'.permits := by
    intro packet hpacket
    rw [List.take_take]
    exact List.take_subset_take_left _ (by omega) hpacket
  have hsplit : InOrder (s.pacer.lastEndTs.getD 0)
      (turn.packets.take turn.sent ++ turn.packets.drop turn.sent) := by
    rw [List.take_append_drop]
    exact horder
  obtain ⟨pacer'', hcommit', hanchored, -, -⟩ := commit_spec h.anchored turn.commitAt hsplit
  obtain rfl := Option.some.inj (hcommit'.symm.trans hcommit)
  obtain ⟨hsameRate, hsameAhead, hsameInterval, hsameBurst, hanchor, hnil, hcons⟩ :=
    commit_effect hcommit
  have hcredit : ∀ first, s.pacer.initialCredit first = initial.initialCredit first := by
    intro first
    unfold initialCredit durationSamples
    rw [h.sampleRate, h.writeAhead]
  refine ⟨hanchored, hsameRate.trans h.sampleRate, hsameAhead.trans h.writeAhead,
    hsameInterval.trans h.udpInterval, hsameBurst.trans h.udpBurst, ?_, ?_, ?_, ?_, ?_⟩
  · rw [hanchor, h.anchor]
    dsimp only
    cases s.log with
    | nil => cases turn.packets.take turn.sent <;> simp [hcredit]
    | cons first log => rfl
  · intro sent hsentLog
    rcases List.mem_append.mp hsentLog with hold | hnew
    · exact Nat.le_trans (h.past sent hold) (Nat.le_trans hnow hlater)
    · obtain ⟨packet, -, rfl⟩ := List.mem_map.mp hnew
      exact Nat.le_refl _
  · intro sent hsentLog anchor hmemAnchor hroom
    rcases List.mem_append.mp hsentLog with hold | hnew
    · obtain ⟨old, hsome⟩ : ∃ old, s.pacer.anchor = some old := by
        rw [h.anchor]
        cases hlog : s.log with
        | nil =>
          rw [hlog] at hold
          cases hold
        | cons first log => exact ⟨_, rfl⟩
      rw [hanchor, hsome] at hmemAnchor
      obtain rfl := Option.some.inj hmemAnchor
      exact h.budget sent hold old hsome hroom
    · obtain ⟨packet, hpacket, rfl⟩ := List.mem_map.mp hnew
      obtain ⟨first, hfirst⟩ : ∃ first, turn.packets.head? = some first := by
        cases hpackets : turn.packets with
        | nil =>
          rw [hpackets] at hpacket
          simp at hpacket
        | cons first packets => exact ⟨first, rfl⟩
      have hzero : turn.sent ≠ 0 := by
        intro hno
        rw [hno] at hpacket
        cases hpacket
      have hhead : ∀ count, count ≠ 0 → (turn.packets.take count).head? = some first := by
        intro count hcount
        rw [List.head?_take, if_neg hcount, hfirst]
      have hinitial : ∀ head ∈ (turn.packets.take turn.maxBatch).head?,
          (none : Option RtpPacketMeta).getD head = first := by
        intro head hhead'
        rw [hhead _ (by omega)] at hhead'
        exact (Option.some.inj hhead').symm
      have hmedia := inspectLoop_media h.anchored hpositive hinitial hspec packet (hmem packet hpacket)
      apply h.budget_batch hrate hlater hmedia _ hroom
      rw [hanchor, hhead _ hzero] at hmemAnchor
      exact hmemAnchor
  · intro start hpos
    rw [sentFrom_append, hlength] at hpos ⊢
    by_cases hstart : start ≤ turn.commitAt
    · rw [if_pos hstart] at hpos ⊢
      rcases Nat.eq_zero_or_pos turn.sent with hzero | hsome
      · have hempty : turn.packets.take turn.sent = [] := by rw [hzero, List.take_zero]
        rw [hzero, Nat.add_zero] at hpos ⊢
        rw [hnil hempty]
        exact h.arrival start hpos
      · obtain ⟨arrival', htat, hfrom, hmore⟩ := hcons fun hempty => by
          rw [hempty] at hlength
          exact absurd hlength.symm (Nat.ne_of_gt hsome)
        rw [hlength, h.udpInterval] at hfrom hmore
        refine ⟨arrival', htat, ?_⟩
        rw [Nat.add_mul]
        rcases Nat.eq_zero_or_pos (sentFrom start s.log) with hno | hold
        · rw [hno, Nat.zero_mul, Nat.zero_add]
          exact Nat.le_trans (Nat.add_le_add_right hstart _) hfrom
        · obtain ⟨arrival, hsome', hbound⟩ := h.arrival start hold
          rw [← Nat.add_assoc]
          exact Nat.le_trans (Nat.add_le_add_right hbound _) (hmore arrival hsome')
    · rw [if_neg hstart, Nat.add_zero] at hpos
      -- nothing was sent so late
      obtain ⟨sent, hsentMem⟩ := List.exists_mem_of_length_pos hpos
      obtain ⟨hsentLog, hge⟩ := List.mem_filter.mp hsentMem
      have hpast := h.past sent hsentLog
      exact absurd (Nat.le_trans (of_decide_eq_true hge)
        (Nat.le_trans hpast (Nat.le_trans hnow hlater))) hstart
  · intro start duration
    rw [sentWithin_append, hlength]
    by_cases hin : start ≤ turn.commitAt ∧ turn.commitAt ≤ start + duration
    · rw [if_pos hin]
      cases hcount : turn.sent with
      | zero => exact h.window start duration
      | succ more =>
        obtain ⟨extra, hextra⟩ : ∃ extra, decision'.permits = 0 + (more + extra + 1) :=
          ⟨decision'.permits - more - 1, by omega⟩
        obtain ⟨hburst, htat⟩ := inspectLoop_udp h.anchored hpositive hspec hextra
        unfold tolerance at hburst htat
        rw [h.udpInterval, h.udpBurst, Nat.add_mul] at hburst htat
        have hwithin := sentWithin_le start (start + duration) s.log
        have hbatch := h.window_batch hinterval hlater
          (Nat.le_trans (Nat.le_add_right _ _) hburst)
          (fun arrival harrival => Nat.le_trans
            (Nat.add_le_add_left (Nat.le_add_right _ _) _) (htat arrival harrival)) hin
        exact Nat.le_trans (Nat.add_le_add_right hwithin _) hbatch
    · rw [if_neg hin]
      exact h.window start duration

/-! ## A batch and its packets one by one -/

/-- How many of the packets are permitted when each is committed before the next is looked at. -/
def oneByOne (pacer : RtpTxPacer) (now : Instant) :
    List RtpPacketMeta → Option (Nat × RtpTxPacer)
  | [] => some (0, pacer)
  | packet :: packets => do
    let decision ← pacer.inspect now [packet] 1
    if decision.permits = 0 then some (0, pacer)
    else
      let pacer' ← pacer.commitOne now packet
      let (count, last) ← oneByOne pacer' now packets
      some (count + 1, last)

/-- The pacer as it is when what the loop has permitted is committed. -/
def ahead (pacer : RtpTxPacer) (now : Instant) (tat : Option Instant)
    (first : Option RtpPacketMeta) (last : Option Nat) : RtpTxPacer :=
  { pacer with
    anchor := pacer.anchor.or
      (first.map fun packet => ⟨now, packet.firstTs, pacer.initialCredit packet⟩)
    udpTat := tat
    lastEndTs := last }

section OneByOne

variable {pacer : RtpTxPacer} {now : Instant} {tat : Option Instant}
  {first : Option RtpPacketMeta} {last : Option Nat}

/-- **The loop judges a packet** as the pacer would with the earlier ones committed. -/
theorem mediaAllows_ahead (hrate : 0 < pacer.sampleRate) (packet : RtpPacketMeta) :
    MediaAllows (ahead pacer now tat first last) now packet packet ↔
      MediaAllows pacer now (first.getD packet) packet := by
  cases hanchor : pacer.anchor with
  | some anchor =>
    have hahead : (ahead pacer now tat first last).anchor = some anchor := by
      unfold ahead
      rw [hanchor]
      rfl
    unfold MediaAllows mediaDeadline
    rw [hahead, hanchor]
    exact Iff.rfl
  | none =>
    cases first with
    | none =>
      have hahead : (ahead pacer now tat none last).anchor = none := by
        unfold ahead
        rw [hanchor]
        rfl
      unfold MediaAllows
      rw [hahead, hanchor]
      exact Iff.rfl
    | some first =>
      have hahead : (ahead pacer now tat (some first) last).anchor =
          some ⟨now, first.firstTs, pacer.initialCredit first⟩ := by
        unfold ahead
        rw [hanchor]
        rfl
      have hlimit := @mediaDeadline_le_anchor (ahead pacer now tat (some first) last)
        ⟨now, first.firstTs, pacer.initialCredit first⟩ packet hrate hahead
      unfold MediaAllows
      rw [hahead, hanchor]
      exact hlimit

theorem commitOne_ahead {packet : RtpPacketMeta} (hpacket : packet.firstTs < packet.endTs)
    (hlast : last.getD 0 ≤ packet.firstTs) :
    (ahead pacer now tat first last).commitOne now packet =
      some (ahead pacer now (pacer.udpAdvance now tat) (some (first.getD packet))
        (some packet.endTs)) := by
  have hbehind : ¬((ahead pacer now tat first last).lastEndTs.any fun previous =>
      packet.firstTs < previous) = true := by
    show ¬(last.any fun previous => packet.firstTs < previous) = true
    cases last with
    | none => exact Bool.false_ne_true
    | some previous => exact fun hany => Nat.not_lt.mpr hlast (of_decide_eq_true hany)
  unfold commitOne
  rw [if_pos hpacket, if_neg hbehind]
  unfold ahead
  cases pacer.anchor <;> cases first <;> rfl

/-- **A batch is permitted** as its packets would be one by one. -/
theorem oneByOne_eq (hrate : 0 < pacer.sampleRate) (h : Anchored pacer)
    (hfirst : first = none → pacer.anchor = none → tat = none) {packets : List RtpPacketMeta}
    (horder : InOrder (last.getD 0) packets) (permits : Nat) :
    ∃ decision pacer', pacer.inspectLoop now packets permits tat first = some decision ∧
      permits ≤ decision.permits ∧
      oneByOne (ahead pacer now tat first last) now packets =
        some (decision.permits - permits, pacer') := by
  induction packets generalizing permits tat first last with
  | nil =>
    refine ⟨⟨permits, none⟩, ahead pacer now tat first last, rfl, Nat.le_refl _, ?_⟩
    rw [Nat.sub_self]
    rfl
  | cons packet packets ih =>
    obtain ⟨hstart, hpacket, hrest⟩ := horder
    have hahead : Anchored (ahead pacer now tat first last) := by
      refine ⟨fun hnone => ?_, h.tolerance⟩
      obtain ⟨hanchor, hmap⟩ := Option.or_eq_none_iff.mp hnone
      exact hfirst (Option.map_eq_none_iff.mp hmap) hanchor
    have hudp : udpAt (ahead pacer now tat first last) now tat = udpAt pacer now tat := rfl
    have hmedia := @mediaAllows_ahead pacer now tat first last hrate packet
    have hinspect : (ahead pacer now tat first last).inspect now [packet] 1 =
        (ahead pacer now tat first last).inspectLoop now [packet] 0 tat none := rfl
    unfold oneByOne
    rw [hinspect]
    by_cases hready : MediaAllows pacer now (first.getD packet) packet ∧ udpAt pacer now tat ≤ now
    · rw [inspectLoop_ready h hpacket hready.1 hready.2,
        inspectLoop_ready hahead hpacket (hmedia.mpr hready.1) (hudp ▸ hready.2)]
      obtain ⟨decision, pacer', hloop, hle, hone⟩ :=
        @ih (pacer.udpAdvance now tat) (some (first.getD packet)) (some packet.endTs)
          (fun hno => nomatch hno) hrest (permits + 1)
      refine ⟨decision, pacer', hloop, by omega, ?_⟩
      have hnil : (ahead pacer now tat first last).inspectLoop now [] (0 + 1)
          ((ahead pacer now tat first last).udpAdvance now tat)
          (some ((none : Option RtpPacketMeta).getD packet)) = some ⟨1, none⟩ := rfl
      have hcount : decision.permits - permits = decision.permits - (permits + 1) + 1 := by omega
      rw [hnil, Option.bind_eq_bind, Option.bind_some, if_neg (Nat.one_ne_zero),
        commitOne_ahead hpacket hstart, Option.bind_eq_bind, Option.bind_some, hone, hcount]
      rfl
    · obtain ⟨wakeAt, hwaits, -⟩ :=
        @inspectLoop_waits pacer now packet packets permits tat first h hpacket hready
      obtain ⟨wakeAt', hwaits', -⟩ :=
        @inspectLoop_waits (ahead pacer now tat first last) now packet [] 0 tat none hahead hpacket
          (fun hboth => hready ⟨hmedia.mp hboth.1, hudp ▸ hboth.2⟩)
      refine ⟨_, ahead pacer now tat first last, hwaits, Nat.le_refl _, ?_⟩
      rw [hwaits', Nat.sub_self]
      rfl

end OneByOne

/-! ## The wake-up -/

theorem mediaAllows_self (pacer : RtpTxPacer) (now : Instant) (packet : RtpPacketMeta) :
    MediaAllows pacer now packet packet ↔ pacer.mediaDeadline now packet ≤ now := by
  unfold MediaAllows
  cases hanchor : pacer.anchor with
  | none =>
    have hdeadline : pacer.mediaDeadline now packet = now := by
      unfold mediaDeadline
      rw [hanchor]
    rw [hdeadline]
    exact ⟨fun _ => Nat.le_refl _, fun _ => Nat.le_max_right _ _⟩
  | some anchor => exact Iff.rfl

/-- **There is a permit** as soon as both limits let the first packet through. -/
theorem permits_iff {pacer : RtpTxPacer} (h : Anchored pacer) (now : Instant)
    {packet : RtpPacketMeta} {packets : List RtpPacketMeta}
    (hpositive : ∀ later ∈ packet :: packets, later.firstTs < later.endTs) :
    (∃ decision, pacer.inspectLoop now (packet :: packets) 0 pacer.udpTat none = some decision ∧
        0 < decision.permits) ↔
      max (pacer.mediaDeadline now packet) (udpAt pacer now pacer.udpTat) ≤ now := by
  have hhere := hpositive packet List.mem_cons_self
  rw [Nat.max_le, ← mediaAllows_self]
  by_cases hready : MediaAllows pacer now packet packet ∧ udpAt pacer now pacer.udpTat ≤ now
  · refine ⟨fun _ => hready, fun _ => ?_⟩
    rw [inspectLoop_ready h hhere hready.1 hready.2]
    obtain ⟨decision, hloop, hlow, -⟩ := inspectLoop_spec h now
      (fun later hlater => hpositive later (List.mem_cons_of_mem _ hlater)) (0 + 1)
      (pacer.udpAdvance now pacer.udpTat) (some packet)
    exact ⟨decision, hloop, hlow⟩
  · refine ⟨?_, fun hboth => absurd hboth hready⟩
    rintro ⟨decision, hloop, hpos⟩
    obtain ⟨wakeAt, hwaits, -⟩ :=
      @inspectLoop_waits pacer now packet packets 0 pacer.udpTat none h hhere hready
    obtain rfl := Option.some.inj (hwaits.symm.trans hloop)
    exact absurd hpos (Nat.lt_irrefl 0)

/-- **The wake-up is the first instant** at which there is a permit. -/
theorem inspect_wakes {pacer : RtpTxPacer} (h : Anchored pacer) {now : Instant}
    {packets : List RtpPacketMeta} {maxBatch : Nat}
    (hpositive : ∀ packet ∈ packets.take maxBatch, packet.firstTs < packet.endTs)
    (hsome : packets.take maxBatch ≠ []) {decision : PaceDecision}
    (hinspect : pacer.inspect now packets maxBatch = some decision)
    (hnone : decision.permits = 0) :
    ∃ wakeAt, decision.wakeAt = some wakeAt ∧ now < wakeAt ∧ ∀ later, now ≤ later →
      ((∃ decision', pacer.inspect later packets maxBatch = some decision' ∧
        0 < decision'.permits) ↔ wakeAt ≤ later) := by
  unfold inspect at hinspect ⊢
  obtain ⟨packet, rest, hpackets⟩ := List.exists_cons_of_ne_nil hsome
  rw [hpackets] at hinspect hpositive ⊢
  have hready : ¬max (pacer.mediaDeadline now packet) (udpAt pacer now pacer.udpTat) ≤ now := by
    rw [← permits_iff h now hpositive]
    rintro ⟨decision', hloop, hpos⟩
    obtain rfl := Option.some.inj (hloop.symm.trans hinspect)
    omega
  have hwaits : ¬(MediaAllows pacer now packet packet ∧ udpAt pacer now pacer.udpTat ≤ now) := by
    rw [mediaAllows_self, ← Nat.max_le]
    exact hready
  obtain ⟨wakeAt, hloop, hwakeAt⟩ :=
    @inspectLoop_waits pacer now packet rest 0 pacer.udpTat none h
      (hpositive packet List.mem_cons_self) hwaits
  obtain rfl := Option.some.inj (hloop.symm.trans hinspect)
  refine ⟨_, hwakeAt rfl rfl, Nat.lt_of_not_le hready, fun later hlater => ?_⟩
  rw [permits_iff h later hpositive, Nat.max_le, Nat.max_le, mediaDeadline_later hlater,
    udpAt_later hlater]

/-! ## Every run -/

theorem kept_new {sampleRate udpBurst : Nat} {writeAhead udpInterval : Duration}
    {pacer : RtpTxPacer} (hnew : new sampleRate writeAhead udpInterval udpBurst = some pacer)
    (htolerance : udpInterval * (udpBurst - 1) < durationLimit) :
    Kept pacer ⟨pacer, [], 0⟩ ∧ pacer.sampleRate = sampleRate ∧ pacer.udpInterval = udpInterval ∧
      pacer.udpBurst = udpBurst ∧ 0 < udpInterval := by
  unfold new at hnew
  split at hnew
  · cases hnew
  · rename_i hinterval
    obtain rfl := Option.some.inj hnew
    refine ⟨⟨⟨fun _ => rfl, htolerance⟩, rfl, rfl, rfl, rfl, rfl, ?_, ?_, ?_, ?_⟩, rfl, rfl, rfl,
      Nat.pos_of_ne_zero hinterval⟩
    · exact fun sent hsent => nomatch hsent
    · exact fun sent hsent => nomatch hsent
    · exact fun start hpos => absurd hpos (Nat.lt_irrefl 0)
    · exact fun start duration => Nat.zero_le _

/-- **The pacer is exact** in every run that commits only what was permitted: the sent audio stays
within the initial credit and the time since the first packet for 584 years, every window has the
datagrams of a burst and of its intervals and one more at most, a batch is permitted as its packets
would be one by one, and without a permit the wake-up is the first instant at which there is one. -/
theorem pacer_exact {sampleRate udpBurst : Nat} {writeAhead udpInterval : Duration}
    {pacer : RtpTxPacer} (hrate : 0 < sampleRate)
    (hnew : new sampleRate writeAhead udpInterval udpBurst = some pacer)
    (htolerance : udpInterval * (udpBurst - 1) < durationLimit) {turns : List Turn}
    (hturns : AllSteps pace InTime ⟨pacer, [], 0⟩ turns) {s : Recorded}
    (hrun : run pace ⟨pacer, [], 0⟩ turns = some s) :
    (∀ first ∈ s.log.head?, ∀ sent ∈ s.log, sent.1 - first.1 < 2 ^ 64 - 1 →
        sent.2.endTs - first.2.firstTs ≤
          pacer.initialCredit first.2 + (sent.1 - first.1) * sampleRate / nsPerSec) ∧
      (∀ start duration, sentWithin start (start + duration) s.log ≤
        udpBurst + duration / udpInterval + 1) ∧
      ∀ now, s.now ≤ now → ∀ packets, InOrder (s.pacer.lastEndTs.getD 0) packets → ∀ maxBatch,
        ∃ decision pacer', s.pacer.inspect now packets maxBatch = some decision ∧
          oneByOne s.pacer now (packets.take maxBatch) = some (decision.permits, pacer') ∧
          (packets.take maxBatch ≠ [] → decision.permits = 0 →
            ∃ wakeAt, decision.wakeAt = some wakeAt ∧ now < wakeAt ∧ ∀ later, now ≤ later →
              ((∃ decision', s.pacer.inspect later packets maxBatch = some decision' ∧
                0 < decision'.permits) ↔ wakeAt ≤ later)) := by
  obtain ⟨hkept, rfl, rfl, rfl, hinterval⟩ := kept_new hnew htolerance
  have hfinal : Kept pacer s :=
    run_invariant_of_allSteps (Kept pacer) InTime
      (fun _ _ _ hs hturn hpace => pace_kept hrate hinterval hs hturn hpace) hkept hturns hrun
  refine ⟨fun first hfirst sent hsent hroom => ?_, hfinal.window,
    fun now _ packets horder maxBatch => ?_⟩
  · apply hfinal.budget sent hsent ⟨first.1, first.2.firstTs, pacer.initialCredit first.2⟩ _ hroom
    rw [hfinal.anchor, Option.mem_def.mp hfirst]
    rfl
  · have hrate' : 0 < s.pacer.sampleRate := by
      rw [hfinal.sampleRate]
      exact hrate
    have htaken : InOrder (s.pacer.lastEndTs.getD 0) (packets.take maxBatch) := horder.take maxBatch
    have hself : ahead s.pacer now s.pacer.udpTat none s.pacer.lastEndTs = s.pacer := by
      unfold ahead
      rw [Option.map_none, Option.or_none]
    obtain ⟨decision, pacer', hloop, -, hone⟩ :=
      @oneByOne_eq s.pacer now s.pacer.udpTat none s.pacer.lastEndTs hrate' hfinal.anchored
        (fun _ => hfinal.anchored.first) _ htaken 0
    rw [hself, Nat.sub_zero] at hone
    exact ⟨decision, pacer', hloop, hone,
      fun hsome hnone => inspect_wakes hfinal.anchored htaken.positive hsome hloop hnone⟩

/-- Packets of 10 ms at 48 kHz: the second is not permitted before its time. -/
def twoTurns : List Turn :=
  [⟨0, [⟨0, 480⟩, ⟨480, 960⟩], 16, 1, 0⟩, ⟨10000000, [⟨480, 960⟩], 16, 1, 10000000⟩]

/-- A second of 48 kHz audio holds no more than its datagrams. -/
theorem pacer_exact_two :
    ∃ pacer s, new 48000 0 1000000 1 = some pacer ∧ run pace ⟨pacer, [], 0⟩ twoTurns = some s ∧
      s.log.length = 2 ∧ sentWithin 0 (0 + 10000000) s.log ≤ 1 + 10000000 / 1000000 + 1 := by
  refine ⟨_, _, rfl, rfl, rfl, ?_⟩
  refine (@pacer_exact 48000 1 0 1000000 _ (by decide) rfl (by decide) twoTurns ?_ _ rfl).2.1
    0 10000000
  refine ⟨⟨Nat.le_refl _, Nat.le_refl _, ?_⟩, fun s hs => ?_⟩
  · exact ⟨Nat.zero_le _, by decide, by decide, by decide, trivial⟩
  · obtain rfl := Option.some.inj hs
    exact ⟨⟨by decide, by decide, by decide, by decide, trivial⟩, fun _ _ => trivial⟩

/-- One frame each second, and a packet that begins 2^40 seconds later. -/
def lateTurns : List Turn :=
  [⟨0, [⟨0, 1⟩], 1, 1, 0⟩, ⟨2 ^ 64 - 1, [⟨2 ^ 40, 2 ^ 40 + 1⟩], 1, 1, 2 ^ 64 - 1⟩]

/-- **A deadline is cut** to 2^64 - 1 nanoseconds, so that the packet is sent long before its time;
and a tolerance that is no duration makes `inspect` panic. -/
theorem pacer_clamps :
    (∃ pacer s, new 1 0 1 1 = some pacer ∧ AllSteps pace InTime ⟨pacer, [], 0⟩ lateTurns ∧
      run pace ⟨pacer, [], 0⟩ lateTurns = some s ∧ ∃ first ∈ s.log.head?, ∃ sent ∈ s.log,
        ¬sent.2.endTs - first.2.firstTs ≤
          pacer.initialCredit first.2 + (sent.1 - first.1) * 1 / nsPerSec) ∧
      ∃ pacer s, new 1 0 (2 ^ 63 * nsPerSec) 3 = some pacer ∧
        run pace ⟨pacer, [], 0⟩ [⟨0, [⟨0, 1⟩], 1, 1, 0⟩] = some s ∧
        InOrder (s.pacer.lastEndTs.getD 0) [⟨1, 2⟩] ∧ s.pacer.inspect 0 [⟨1, 2⟩] 1 = none := by
  refine ⟨⟨_, _, rfl, ?_, rfl, _, rfl, _, List.mem_cons_of_mem _ List.mem_cons_self, by decide⟩,
    _, _, rfl, rfl, ⟨by decide, by decide, trivial⟩, by decide⟩
  refine ⟨⟨Nat.le_refl _, Nat.le_refl _, Nat.zero_le _, by decide, trivial⟩, fun s hs => ?_⟩
  obtain rfl := Option.some.inj hs
  exact ⟨⟨Nat.zero_le _, Nat.le_refl _, by decide, by decide, trivial⟩, fun _ _ => trivial⟩

end Catplay.Analysis.Rtp.Budget
