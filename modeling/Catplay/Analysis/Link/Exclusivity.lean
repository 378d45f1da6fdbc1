import Catplay.Analysis.Link.Calls

/-!
# One protocol per link

A link speaks iAP2 or iAP1, never both, and falls silent with the first error. The
first half needs that a host is not downgraded after it has answered a DETECT: the
guard of `downgrade` looks at the DETECTs of an accessory only. The invariant
`Exclusive` ties the kinds of the frames written so far to the phase. A move of the
core keeps it for two reasons: phases come in an order (`Progresses`), and each phase
has its own kind of frames (`Speaks`).
-/

set_option autoImplicit false

namespace Catplay.Analysis.Link

open Catplay.Library.Run Catplay.Model.Link

/-- A frame of the iAP2 protocol. -/
def IsIap2 : PacketOrDetect → Prop
  | .detect | .packet _ => True
  | .legacy _ => False

/-- A frame of the iAP1 protocol. -/
def IsLegacy : PacketOrDetect → Prop
  | .legacy _ => True
  | .detect | .packet _ => False

/-! ## The order of the phases -/

/-- The role stays, a DETECT stays sent, and the phase stays, fails, or goes on towards
the data phase. -/
structure Progresses (c c' : Core) : Prop where
  server : c'.server = c.server
  detectSent : c.detectSent = true → c'.detectSent = true
  phase : c'.phase = c.phase ∨ c'.phase = .error ∨
    ((c.phase = .detecting ∨ c.phase = .negotiating) ∧
      (c'.phase = .negotiating ∨ c'.phase = .data))

variable {c c' : Core} {taken : Option Bytes} {frame : PacketOrDetect}
  {frames : List PacketOrDetect}

/-- A core that differs in neither of the three. -/
theorem Progresses.of_eq (hserver : c'.server = c.server)
    (hdetect : c'.detectSent = c.detectSent) (hphase : c'.phase = c.phase) : Progresses c c' :=
  ⟨hserver, fun h => hdetect.trans h, Or.inl hphase⟩

/-- A core that fails. -/
theorem Progresses.of_error (hserver : c'.server = c.server)
    (hdetect : c'.detectSent = c.detectSent) (hphase : c'.phase = .error) : Progresses c c' :=
  ⟨hserver, fun h => hdetect.trans h, Or.inr (Or.inl hphase)⟩

theorem Progresses.trans {c₁ c₂ c₃ : Core} (h₁ : Progresses c₁ c₂) (h₂ : Progresses c₂ c₃) :
    Progresses c₁ c₃ := by
  refine ⟨h₂.server.trans h₁.server, fun h => h₂.detectSent (h₁.detectSent h), ?_⟩
  have hfirst := h₁.phase
  have hsecond := h₂.phase
  generalize c₁.phase = p₁ at *
  generalize c₂.phase = p₂ at *
  generalize c₃.phase = p₃ at *
  cases p₁ <;> cases p₂ <;> cases p₃ <;> simp_all

/-- Transmission moves the phase on. -/
theorem transmits_progresses {next : Option PacketOrDetect}
    (h : Core.Transmits c taken c' next) : Progresses c c' := by
  cases h with
  | idle | lose | legacy | detectHost | dropAnswer | synAck | syn | retransmit | payload
  | emptyAck => exact .of_eq rfl rfl rfl
  | fail | tooLong => exact .of_error rfl rfl rfl
  | detectAccessory hserver hphase => exact ⟨rfl, fun _ => rfl, Or.inl rfl⟩
  | finalAck peerSeq p hphase hpending hpeer hp =>
    exact ⟨rfl, id, Or.inr (Or.inr ⟨Or.inr hphase, Or.inr rfl⟩)⟩

theorem receiveAck_progresses (c : Core) (p : Packet) : Progresses c (c.receiveAck p) := by
  unfold Core.receiveAck
  split <;> exact .of_eq rfl rfl rfl

theorem wake_progresses (c : Core) : Progresses c c.wake := by
  unfold Core.wake
  split
  · rename_i hasleep
    exact ⟨rfl, id, Or.inr (Or.inr ⟨Or.inl hasleep.2, Or.inl rfl⟩)⟩
  · exact .of_eq rfl rfl rfl

theorem advance_progresses (c : Core) (p : Packet) : Progresses c (c.advance p) := by
  unfold Core.advance
  split <;> exact .of_eq rfl rfl rfl

/-- Negotiation opens the data phase at most. -/
theorem negotiates_progresses {p : Packet} (hphase : c.phase = .negotiating)
    (h : Core.Negotiates c p c') : Progresses c c' := by
  have hadvance := advance_progresses c p
  cases h with
  | ignored => exact .of_eq rfl rfl rfl
  | unparsed => exact hadvance
  | exceeded => exact hadvance.trans (.of_error rfl rfl rfl)
  | counter | accept | copy => exact hadvance.trans (.of_eq rfl rfl rfl)
  | opens =>
    refine hadvance.trans ⟨rfl, id, Or.inr (Or.inr ⟨Or.inr ?_, Or.inr rfl⟩)⟩
    unfold Core.advance
    split <;> exact hphase

theorem delivers_progresses {p : Packet} {delivered : List Bytes}
    (h : Core.Delivers c p c' delivered) : Progresses c c' := by
  obtain ⟨peerSeq, outOfOrder, rfl, -⟩ := h.frame
  exact .of_eq rfl rfl rfl

/-- Reception moves the phase on, or a first iAP1 frame downgrades a host that detects. -/
theorem reads_progresses {delivered : List Bytes} (h : Core.Reads c frame c' delivered) :
    Progresses c c' ∨ ((∃ body, frame = .legacy body) ∧ c.server = true ∧
      c.phase = .detecting ∧ c.detectSent = false ∧ c' = { c with phase := .downgrade }) := by
  cases h with
  | ignore | detect | legacy => exact Or.inl (.of_eq rfl rfl rfl)
  | fail => exact Or.inl (.of_error rfl rfl rfl)
  | detectAnswered hserver hphase =>
    exact Or.inl ⟨rfl, id, Or.inr (Or.inr ⟨Or.inl hphase, Or.inl rfl⟩)⟩
  | downgraded body hserver hphase hdetect =>
    exact Or.inr ⟨⟨body, rfl⟩, hserver, hphase, hdetect, rfl⟩
  | early p hserver hphase => exact Or.inl (receiveAck_progresses c p)
  | negotiate p _ hphase hsize hneg =>
    have hwake := (wake_progresses c).trans (receiveAck_progresses c.wake p)
    have hnegotiating : (c.wake.receiveAck p).phase = .negotiating := by
      rw [Core.receiveAck_phase]
      exact hphase
    exact Or.inl (hwake.trans (negotiates_progresses hnegotiating hneg))
  | data p _ _ hphase hsize hdelivers =>
    exact Or.inl ((receiveAck_progresses c p).trans (delivers_progresses hdelivers))

/-! ## Which frames a phase writes -/

/-- The frame belongs to the phase in which the core is after it was written. -/
def Speaks (c : Core) : PacketOrDetect → Prop
  | .detect => c.phase = .detecting ∧ (c.server = true ∨ c.detectSent = true)
  | .packet _ => c.phase = .negotiating ∨ c.phase = .data
  | .legacy _ => c.phase = .downgrade

/-- A transmitted frame belongs to the phase. -/
theorem transmits_speaks (h : Core.Transmits c taken c' (some frame)) : Speaks c' frame := by
  cases h with
  | legacy body hphase => exact hphase
  | detectHost hserver hphase => exact ⟨hphase, Or.inl hserver⟩
  | detectAccessory hserver hphase => exact ⟨hphase, Or.inr rfl⟩
  | synAck peerSeq p hphase hpending hpeer hp => exact Or.inl hphase
  | finalAck peerSeq p hphase hpending hpeer hp => exact Or.inr rfl
  | syn p hserver hphase hfirst hp => exact Or.inl hphase
  | retransmit seq kept p hphase hkept hp => exact hphase
  | payload sessionType payload peerSeq session p hphase => exact Or.inr hphase
  | emptyAck peerSeq p hphase hpeer hp => exact Or.inr hphase

/-! ## The invariant -/

/-- The phases a link can be in with the frames it has written. -/
structure Exclusive (c : Core) (frames : List PacketOrDetect) : Prop where
  packet_phase : (∃ p, .packet p ∈ frames) → c.phase ≠ .detecting
  iap2_phase : (∃ f ∈ frames, IsIap2 f) → c.phase ≠ .downgrade
  detect_sent : .detect ∈ frames → c.server = true ∨ c.detectSent = true
  legacy_phase : (∃ f ∈ frames, IsLegacy f) → c.phase = .downgrade ∨ c.phase = .error
  one_protocol : ¬ ((∃ f ∈ frames, IsIap2 f) ∧ ∃ f ∈ frames, IsLegacy f)

/-- Progress without a frame. -/
theorem Exclusive.progress (h : Exclusive c frames)
    (hmove : Progresses c c') : Exclusive c' frames := by
  have hphase := hmove.phase
  refine ⟨fun hpacket => ?_, fun hiap2 => ?_, fun hdetect => ?_, fun hlegacy => ?_, h.one_protocol⟩
  · have hold := h.packet_phase hpacket
    rintro hnew
    simp_all
  · have hold := h.iap2_phase hiap2
    rintro hnew
    simp_all
  · exact (h.detect_sent hdetect).imp (fun hserver => hmove.server.trans hserver) hmove.detectSent
  · have hold := h.legacy_phase hlegacy
    rcases hold with hold | hold <;> simp_all

/-- A frame that belongs to the phase. -/
theorem Exclusive.speak
    (h : Exclusive c frames) (hspeaks : Speaks c frame) : Exclusive c (frames ++ [frame]) := by
  have hmem : ∀ P : PacketOrDetect → Prop,
      (∃ f ∈ frames ++ [frame], P f) ↔ (∃ f ∈ frames, P f) ∨ P frame := by
    intro P
    simp [or_and_right, exists_or]
  have hpackets : (∃ p, .packet p ∈ frames ++ [frame]) ↔
      (∃ p, .packet p ∈ frames) ∨ ∃ p, .packet p = frame := by
    simp [exists_or]
  have hdetects : .detect ∈ frames ++ [frame] ↔ .detect ∈ frames ∨ .detect = frame := by simp
  have hpacket := h.packet_phase
  have hiap2 := h.iap2_phase
  have hdetect := h.detect_sent
  have hlegacy := h.legacy_phase
  have hone := h.one_protocol
  constructor
  · rw [hpackets]
    rintro (hold | ⟨p, rfl⟩)
    · exact hpacket hold
    · rcases hspeaks with hphase | hphase <;> simp [hphase]
  · rw [hmem]
    rintro (hold | hnew)
    · exact hiap2 hold
    · cases frame with
      | detect => simp [hspeaks.1]
      | packet p => rcases hspeaks with hphase | hphase <;> simp [hphase]
      | legacy body => exact absurd hnew id
  · rw [hdetects]
    rintro (hold | rfl)
    · exact hdetect hold
    · exact hspeaks.2
  · rw [hmem]
    rintro (hold | hnew)
    · exact hlegacy hold
    · cases frame with
      | detect | packet p => exact absurd hnew id
      | legacy body => exact Or.inl hspeaks
  · rw [hmem, hmem]
    rintro ⟨hold | hnew, hold' | hnew'⟩
    · exact hone ⟨hold, hold'⟩
    · cases frame with
      | detect | packet p => exact absurd hnew' id
      | legacy body => exact hiap2 hold hspeaks
    · have hphase := hlegacy hold'
      cases frame with
      | detect => simp [hspeaks.1] at hphase
      | packet p => rcases hspeaks with hspeaks | hspeaks <;> simp [hspeaks] at hphase
      | legacy body => exact absurd hnew id
    · cases frame <;> first | exact absurd hnew id | exact absurd hnew' id

/-- One transmission. -/
theorem Exclusive.transmit {next : Option PacketOrDetect} (h : Exclusive c frames)
    (hmove : Core.Transmits c taken c' next) : Exclusive c' (frames ++ next.toList) := by
  have hprogress := h.progress (transmits_progresses hmove)
  cases next with
  | none => simpa using hprogress
  | some frame => exact hprogress.speak (transmits_speaks hmove)

/-- A sequence of transmissions. -/
theorem Exclusive.emit {takens : List Bytes} {nexts : List PacketOrDetect}
    (h : Exclusive c frames) (hmoves : Core.Emits c takens c' nexts) :
    Exclusive c' (frames ++ nexts) := by
  induction hmoves generalizing frames with
  | nil => simpa using h
  | cons hmove hrest ih =>
    rw [← List.append_assoc]
    exact ih (h.transmit hmove)

/-- A core that goes to iAP1 must not have written iAP2 frames. -/
theorem Exclusive.downgrade (h : Exclusive c frames)
    (hnone : ∀ f ∈ frames, ¬ IsIap2 f) : Exclusive { c with phase := .downgrade } frames := by
  refine ⟨fun _ => by simp, fun ⟨f, hf, hiap2⟩ => ?_, h.detect_sent, fun _ => Or.inl rfl,
    h.one_protocol⟩
  exact absurd hiap2 (hnone f hf)

/-- A core that has sent no DETECT and is to be downgraded has written no iAP2 frame, unless
it is a host that answered one. -/
theorem Exclusive.not_iap2 (h : Exclusive c frames)
    (hphase : c.phase = .downgrade ∨ c.phase = .detecting) (hsent : c.detectSent = false)
    (hhost : c.server = true → c.phase = .detecting → .detect ∉ frames) :
    ∀ f ∈ frames, ¬ IsIap2 f := by
  intro f hf hiap2
  rcases hphase with hphase | hphase
  · exact h.iap2_phase ⟨f, hf, hiap2⟩ hphase
  · cases f with
    | detect =>
      rcases h.detect_sent hf with hserver | hdetect
      · exact hhost hserver hphase hf
      · rw [hsent] at hdetect
        cases hdetect
    | packet p => exact h.packet_phase ⟨p, hf⟩ hphase
    | legacy body => exact hiap2

/-! ## Runs -/

/-- The calls by which a link that is detecting goes to iAP1. -/
def Downgrades : Session.Call → Prop
  | .downgrade | .read (.legacy _) => True
  | _ => False

/-- A host that has answered a DETECT and still detects is not downgraded. -/
def KeepsProtocol (s : Session) (call : Session.Call) : Prop :=
  s.link.server = true → s.link.status = .detecting → .detect ∈ s.written → ¬ Downgrades call

/-- The step lemma: one call keeps the invariant. -/
theorem Exclusive.step {s s' : Session} {call : Session.Call}
    (h : s.link.events = [] ∧ Exclusive (coreOf s.link) s.written) (hkeeps : KeepsProtocol s call)
    (hstep : s.step call = some s') :
    s'.link.events = [] ∧ Exclusive (coreOf s'.link) s'.written := by
  obtain ⟨hevents, hexclusive⟩ := h
  obtain ⟨hevents', events, -, hwritten, hmoves⟩ := step_moves hevents hstep
  refine ⟨hevents', ?_⟩
  have hhost : Downgrades call → s.link.server = true → (coreOf s.link).phase = .detecting →
      .detect ∉ s.written := fun hdown hserver hphase hdetect =>
    hkeeps hserver (status_detecting_iff.mpr hphase) hdetect hdown
  rw [hwritten]
  generalize writes events = frames at hmoves ⊢
  generalize coreOf s'.link = c' at hmoves ⊢
  cases hmoves with
  | still => simpa using hexclusive
  | reconcile _ _ _ _ hemits => exact hexclusive.emit hemits
  | read frame _ _ hreads =>
    rw [List.append_nil]
    rcases reads_progresses hreads with hprogress | ⟨⟨body, rfl⟩, hserver, hphase, hsent, rfl⟩
    · exact hexclusive.progress hprogress
    · exact hexclusive.downgrade (hexclusive.not_iap2 (Or.inr hphase) hsent (hhost trivial))
  | downgrade hphase hsent =>
    rw [List.append_nil]
    exact hexclusive.downgrade (hexclusive.not_iap2 hphase hsent (hhost trivial))
  | close =>
    rw [List.append_nil]
    exact hexclusive.progress (.of_error rfl rfl rfl)

/-- A fresh link has written nothing. -/
theorem Exclusive.fresh (server : Bool) (clock : Nat) (lspNegotiator : LSPNegotiator) :
    Exclusive (coreOf (Session.fresh server clock lspNegotiator).link)
      (Session.fresh server clock lspNegotiator).written := by
  have hnothing : (Session.fresh server clock lspNegotiator).written = [] := rfl
  rw [hnothing]
  constructor <;> simp

/-- An error stays, and nothing is written any more. -/
theorem error_absorbs {call : Session.Call}
    (h : Moves c call c' frames) (herror : c.phase = .error) :
    c'.phase = .error ∧ frames = [] := by
  cases h with
  | still => exact ⟨herror, rfl⟩
  | reconcile _ _ takens _ hemits =>
    induction hemits with
    | nil => exact ⟨herror, rfl⟩
    | cons hmove hrest ih =>
      cases hmove with
      | idle => exact ih herror
      | fail _ hphase => exact absurd herror hphase
      | retransmit _ _ _ hphase => rcases hphase with hphase | hphase <;> simp_all
      | _ => simp_all
  | read _ _ _ hreads =>
    refine ⟨?_, rfl⟩
    rcases reads_progresses hreads with hprogress | ⟨-, -, hphase, -, -⟩
    · rcases hprogress.phase with hphase | hphase | ⟨hphase, -⟩ <;> simp_all
    · rw [herror] at hphase
      cases hphase
  | downgrade hphase => rcases hphase with hphase | hphase <;> simp_all
  | close => exact ⟨rfl, rfl⟩

/-- An error stays over any number of calls. -/
theorem error_absorbs_run {s s' : Session} {calls : List Session.Call}
    (hevents : s.link.events = []) (herror : s.link.isError = true)
    (hrun : run Session.step s calls = some s') :
    s'.link.isError = true ∧ s'.written = s.written := by
  have hkept := run_invariant
    (fun t : Session => t.link.events = [] ∧ t.link.isError = true ∧ t.written = s.written)
    (fun t call t' ht hstep => by
      obtain ⟨hevents, herror, hsame⟩ := ht
      obtain ⟨hevents', events, -, hwritten, hmoves⟩ := step_moves hevents hstep
      obtain ⟨herror', hnothing⟩ := error_absorbs hmoves (isError_iff.mp herror)
      rw [hnothing, List.append_nil] at hwritten
      exact ⟨hevents', isError_iff.mpr herror', hwritten.trans hsame⟩)
    ⟨hevents, herror, rfl⟩ hrun
  exact hkept.2

/-- **Protocol exclusivity.** As long as a host that has answered a DETECT is not
downgraded, a link never writes frames of both protocols. An error is final in every run:
the link stays in it and writes nothing more. -/
theorem protocol_exclusivity (server : Bool) (clock : Nat) (lspNegotiator : LSPNegotiator)
    (calls : List Session.Call) (s : Session)
    (hkeeps : AllSteps Session.step KeepsProtocol (.fresh server clock lspNegotiator) calls)
    (hrun : run Session.step (.fresh server clock lspNegotiator) calls = some s) :
    ¬ ((∃ f ∈ s.written, IsIap2 f) ∧ ∃ f ∈ s.written, IsLegacy f) ∧
      (s.link.isError = true → ∀ later s', run Session.step s later = some s' →
        s'.link.isError = true ∧ s'.written = s.written) := by
  obtain ⟨hevents, hexclusive⟩ := run_invariant_of_allSteps
    (fun t : Session => t.link.events = [] ∧ Exclusive (coreOf t.link) t.written) KeepsProtocol
    (fun _ _ _ ht hkeeps hstep => Exclusive.step ht hkeeps hstep)
    ⟨rfl, Exclusive.fresh server clock lspNegotiator⟩ hkeeps hrun
  exact ⟨hexclusive.one_protocol, fun herror later s' hlater =>
    error_absorbs_run hevents herror hlater⟩

/-- A host that has answered a DETECT fails when it is to write iAP1. -/
theorem protocol_exclusivity_detected :
    ∃ s, run Session.step (.fresh true 0 (SimpleLSPNegotiator .bluetooth))
        [.read .detect, .reconcile 1, .enqueueLingo [1], .reconcile 1] = some s ∧
      s.link.isError = true ∧
      ¬ ((∃ f ∈ s.written, IsIap2 f) ∧ ∃ f ∈ s.written, IsLegacy f) := by
  refine ⟨_, rfl, rfl, (protocol_exclusivity true 0 (SimpleLSPNegotiator .bluetooth)
    [.read .detect, .reconcile 1, .enqueueLingo [1], .reconcile 1] _ ?_ rfl).1⟩
  have hkeeps : ∀ (t : Session) (call : Session.Call), ¬ Downgrades call → KeepsProtocol t call :=
    fun _ _ hcall _ _ _ => hcall
  refine ⟨hkeeps _ _ id, fun t₁ _ => ⟨hkeeps _ _ id, fun t₂ _ => ⟨hkeeps _ _ id, fun t₃ _ => ?_⟩⟩⟩
  exact ⟨hkeeps _ _ id, fun _ _ => trivial⟩

/-- A host answers a DETECT, is downgraded by the first iAP1 frame, and writes iAP1. -/
theorem host_writes_both_protocols :
    ¬ ∀ (server : Bool) (clock : Nat) (lspNegotiator : LSPNegotiator)
        (calls : List Session.Call) (s : Session),
      run Session.step (.fresh server clock lspNegotiator) calls = some s →
        ¬ ((∃ f ∈ s.written, IsIap2 f) ∧ ∃ f ∈ s.written, IsLegacy f) := by
  intro h
  refine h true 0 (SimpleLSPNegotiator .bluetooth)
    [.read .detect, .reconcile 1, .read (.legacy [1]), .enqueueLingo [2], .reconcile 1] _ rfl ?_
  exact ⟨⟨.detect, by decide, trivial⟩, ⟨.legacy [2], by decide, trivial⟩⟩

end Catplay.Analysis.Link
