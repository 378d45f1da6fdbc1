import Catplay.Analysis.Rtsp.Calls

/-!
# Frames from a stream in pieces

The frame codec keeps a cursor behind which it looks for the end of the headers. A decoder that
has no cursor and looks from the front each time gives the same answers, and it is lawful: what
follows a buffer does not change what it says about it.
-/

set_option autoImplicit false

namespace Catplay.Analysis.Rtsp

open Catplay.Model.Rtsp Catplay.Model.Rtsp.FrameCodec Catplay.Library Catplay.Library.StreamDecoder

/-! ## The decoder without a cursor -/

/-- The body that is waited for, if any; its length is not zero. -/
abbrev Awaited := Option {state : CodecState // IsBody state ∧ 0 < contentLength state}

/-- What a state of the codec waits for. -/
noncomputable def await (state : CodecState) : Awaited := by
  classical
  exact if h : IsBody state ∧ 0 < contentLength state then some ⟨state, h⟩ else none

/-- A step without the cursor of the state it ends in. -/
noncomputable def forget :
    Outcome CodecState RtspFrame UInt8 RtspError → Outcome Awaited RtspFrame UInt8 RtspError
  | .item frame next rest => .item frame (await next) rest
  | .more next rest => .more (await next) rest
  | .error e => .error e

/-- The codec with the cursor set back to the front. -/
noncomputable def decodeAnew (awaited : Awaited) (src : List UInt8) :
    Outcome Awaited RtspFrame UInt8 RtspError :=
  forget (outcome (awaited.elim (.headers 0) (·.1)) src)

theorem await_headers (scanned : Nat) : await (.headers scanned) = none := by
  unfold await
  exact dif_neg fun h => h.1

theorem await_body {state : CodecState} (h : IsBody state ∧ 0 < contentLength state) :
    await state = some ⟨state, h⟩ := by
  unfold await
  exact dif_pos h

variable {frame : RtspFrame} {next : CodecState} {rest : List UInt8} {awaited : Awaited}
  {out : Outcome CodecState RtspFrame UInt8 RtspError} {codec : TransportCodec}

/-- What a step in a body state says does not depend on what follows. -/
theorem bodyOutcome_item {state : CodecState} {src : List UInt8}
    (h : bodyOutcome state src = .item frame next rest) :
    next = .headers 0 ∧ rest.length + contentLength state = src.length ∧
      ∀ later, bodyOutcome state (src ++ later) = .item frame next (rest ++ later) := by
  unfold bodyOutcome at h
  split at h
  · cases h
  · rename_i found hfound
    split at h
    · cases h
    · rename_i hlength
      simp only [Outcome.item.injEq] at h
      obtain ⟨rfl, rfl, rfl⟩ := h
      refine ⟨rfl, by rw [List.length_drop]; omega, fun later => ?_⟩
      unfold bodyOutcome
      rw [List.take_append_of_le_length (by omega), hfound,
        List.drop_append_of_le_length (by omega)]
      dsimp only
      rw [if_neg (by rw [List.length_append]; omega)]

theorem bodyOutcome_more {state : CodecState} (hbody : IsBody state) {src : List UInt8}
    (h : bodyOutcome state src = .more next rest) :
    next = state ∧ rest = src ∧ 0 < contentLength state := by
  unfold bodyOutcome at h
  split at h
  · rename_i hnone
    cases state with
    | headers _ => exact hbody.elim
    | requestBody _ _ _ _ _ _ => cases hnone
    | responseBody _ _ _ _ _ => cases hnone
  · split at h
    · rename_i hlength
      simp only [Outcome.more.injEq] at h
      exact ⟨h.1.symm, h.2.symm, by omega⟩
    · cases h

theorem bodyOutcome_error {state : CodecState} {src : List UInt8} {e : RtspError} :
    bodyOutcome state src ≠ .error e := by
  unfold bodyOutcome
  split
  · simp
  · split <;> simp

/-- The search in a longer buffer, where the shorter one decides it. -/
theorem findHttpRequestEnd_append {src later : List UInt8}
    (h : findHttpRequestEnd src 0 (min src.length Limits.headersSize) ≠ none ∨
      src.length > Limits.headersSize) :
    findHttpRequestEnd (src ++ later) 0 (min (src ++ later).length Limits.headersSize) =
      findHttpRequestEnd src 0 (min src.length Limits.headersSize) := by
  have hlength : (src ++ later).length = src.length + later.length := List.length_append
  cases hfind : findHttpRequestEnd src 0 (min src.length Limits.headersSize) with
  | some pos =>
    obtain ⟨i, rfl, -, hsearch, hwindow, hbefore⟩ := findHttpRequestEnd_eq_some.mp hfind
    have hi := window_length hwindow
    refine findHttpRequestEnd_eq_some.mpr ⟨i, rfl, Nat.zero_le i, by omega, ?_, fun j _ hj => ?_⟩
    · rwa [window_append hi]
    · rw [window_append (by omega)]
      exact hbefore j (Nat.zero_le j) hj
  | none =>
    have hbig : src.length > Limits.headersSize := h.resolve_left fun hne => hne hfind
    by_contra hsome
    obtain ⟨pos, hpos⟩ := Option.ne_none_iff_exists'.mp hsome
    obtain ⟨i, rfl, -, hsearch, hwindow, hbefore⟩ := findHttpRequestEnd_eq_some.mp hpos
    have hsomeSrc : findHttpRequestEnd src 0 (min src.length Limits.headersSize) =
        some (i + 4) := by
      refine findHttpRequestEnd_eq_some.mpr ⟨i, rfl, Nat.zero_le i, by omega, ?_, fun j _ hj => ?_⟩
      · rwa [window_append (by omega)] at hwindow
      · have := hbefore j (Nat.zero_le j) hj
        rwa [window_append (by omega)] at this
    rw [hfind] at hsomeSrc
    cases hsomeSrc

/-- What a step in the header state comes to. -/
inductive HeaderStep (scanned : Nat) (src : List UInt8) :
    Outcome CodecState RtspFrame UInt8 RtspError → Prop
  | empty (h : src = []) : HeaderStep scanned src (.more (.headers scanned) [])
  | tooBig (hfind : findHttpRequestEnd src scanned (min src.length Limits.headersSize) = none)
      (hbig : src.length > Limits.headersSize) : HeaderStep scanned src (.error .headersTooBig)
  | unfinished
      (hfind : findHttpRequestEnd src scanned (min src.length Limits.headersSize) = none)
      (hsmall : src.length ≤ Limits.headersSize) :
      HeaderStep scanned src (.more (.headers (src.length - 4)) src)
  | malformed (pos : Nat)
      (hfind : findHttpRequestEnd src scanned (min src.length Limits.headersSize) = some pos)
      (e : RtspError) (hparse : parseHeaderBlock (src.take pos) = .error e) :
      HeaderStep scanned src (.error e)
  | body (pos : Nat)
      (hfind : findHttpRequestEnd src scanned (min src.length Limits.headersSize) = some pos)
      (next : CodecState) (hparse : parseHeaderBlock (src.take pos) = .ok next) :
      HeaderStep scanned src (bodyOutcome next (src.drop pos))

theorem headerStep (scanned : Nat) (src : List UInt8) :
    HeaderStep scanned src (outcome (.headers scanned) src) := by
  by_cases hsrc : src = []
  · subst hsrc
    exact .empty rfl
  · rw [outcome_headers scanned hsrc]
    cases hfind : findHttpRequestEnd src scanned (min src.length Limits.headersSize) with
    | none =>
      by_cases hbig : src.length > Limits.headersSize
      · simp only [hbig, if_true]
        exact .tooBig hfind hbig
      · simp only [hbig, if_false]
        exact .unfinished hfind (by omega)
    | some pos =>
      cases hparse : parseHeaderBlock (src.take pos) with
      | error e =>
        simp only [hparse]
        exact .malformed pos hfind e hparse
      | ok next =>
        simp only [hparse]
        exact .body pos hfind next hparse

/-- The position of a terminator lies in the buffer, four bytes behind its front at least. -/
theorem pos_bounds {src : List UInt8} {cursor searchLen pos : Nat}
    (hfind : findHttpRequestEnd src cursor searchLen = some pos) :
    4 ≤ pos ∧ pos ≤ src.length := by
  obtain ⟨i, rfl, -, -, hwindow, -⟩ := findHttpRequestEnd_eq_some.mp hfind
  have := window_length hwindow
  omega

/-- A header step that found its end finds it in a longer buffer. -/
theorem outcome_append {src later : List UInt8} {pos : Nat}
    (hfind : findHttpRequestEnd src 0 (min src.length Limits.headersSize) = some pos) :
    outcome (.headers 0) (src ++ later) =
      match parseHeaderBlock (src.take pos) with
      | .error e => .error e
      | .ok next => bodyOutcome next (src.drop pos ++ later) := by
  obtain ⟨hfour, hpos⟩ := pos_bounds hfind
  have hsrc : src ++ later ≠ [] := by
    intro h
    have := congrArg List.length h
    rw [List.length_append, List.length_nil] at this
    omega
  have happend : findHttpRequestEnd (src ++ later) 0
      (min (src ++ later).length Limits.headersSize) =
        findHttpRequestEnd src 0 (min src.length Limits.headersSize) :=
    findHttpRequestEnd_append (.inl (by rw [hfind]; simp))
  have hstep := outcome_headers 0 hsrc
  rw [happend, hfind] at hstep
  dsimp only at hstep
  rw [List.take_append_of_le_length hpos, List.drop_append_of_le_length hpos] at hstep
  exact hstep

theorem forget_item (h : forget out = .item frame awaited rest) :
    ∃ next, out = .item frame next rest ∧ awaited = await next := by
  cases out with
  | item a next r =>
    simp only [forget, Outcome.item.injEq] at h
    obtain ⟨rfl, rfl, rfl⟩ := h
    exact ⟨next, rfl, rfl⟩
  | more _ _ => cases h
  | error _ => cases h

theorem forget_more (h : forget out = .more awaited rest) :
    ∃ next, out = .more next rest ∧ awaited = await next := by
  cases out with
  | more next r =>
    simp only [forget, Outcome.more.injEq] at h
    obtain ⟨rfl, rfl⟩ := h
    exact ⟨next, rfl, rfl⟩
  | item _ _ _ => cases h
  | error _ => cases h

theorem forget_error {e : RtspError} (h : forget out = .error e) : out = .error e := by
  cases out with
  | error _ =>
    simp only [forget, Outcome.error.injEq] at h
    rw [h]
  | item _ _ _ => cases h
  | more _ _ => cases h

section Bodies

variable (body : {state : CodecState // IsBody state ∧ 0 < contentLength state})
  (src later : List UInt8)

theorem decodeAnew_some : decodeAnew (some body) src = forget (bodyOutcome body.1 src) := by
  unfold decodeAnew
  rw [Option.elim_some, outcome_body body.2.1]

theorem decodeAnew_none : decodeAnew none src = forget (outcome (.headers 0) src) := rfl

end Bodies

/-- **The decoder without a cursor is lawful.** -/
theorem lawful_decodeAnew : Lawful decodeAnew where
  item_shorter := by
    intro awaited src frame awaited' rest h
    cases awaited with
    | some body =>
      rw [decodeAnew_some] at h
      obtain ⟨next, hout, -⟩ := forget_item h
      have := (bodyOutcome_item hout).2.1
      have := body.2.2
      omega
    | none =>
      obtain ⟨next, hout, -⟩ := forget_item h
      have hstep := headerStep 0 src
      rw [Option.elim_none] at hout
      rw [hout] at hstep
      generalize hgen : Outcome.item frame next rest = out at hstep
      cases hstep with
      | body pos hfind found hparse =>
        have hlength := (bodyOutcome_item hgen.symm).2.1
        have := pos_bounds hfind
        rw [List.length_drop] at hlength
        omega
      | _ => cases hgen
  item_append := by
    intro awaited src frame awaited' rest h later
    cases awaited with
    | some body =>
      rw [decodeAnew_some] at h
      obtain ⟨next, hout, rfl⟩ := forget_item h
      rw [decodeAnew_some, (bodyOutcome_item hout).2.2 later]
      rfl
    | none =>
      obtain ⟨next, hout, rfl⟩ := forget_item h
      have hstep := headerStep 0 src
      rw [Option.elim_none] at hout
      rw [hout] at hstep
      generalize hgen : Outcome.item frame next rest = out at hstep
      cases hstep with
      | body pos hfind found hparse =>
        rw [decodeAnew_none, outcome_append hfind, hparse]
        dsimp only
        rw [(bodyOutcome_item hgen.symm).2.2 later]
        rfl
      | _ => cases hgen
  more_append := by
    intro awaited src awaited' rest h later
    cases awaited with
    | some body =>
      rw [decodeAnew_some] at h
      obtain ⟨next, hout, rfl⟩ := forget_more h
      obtain ⟨rfl, rfl, -⟩ := bodyOutcome_more body.2.1 hout
      rw [await_body body.2]
    | none =>
      obtain ⟨next, hout, rfl⟩ := forget_more h
      have hstep := headerStep 0 src
      rw [Option.elim_none] at hout
      rw [hout] at hstep
      generalize hgen : Outcome.more next rest = out at hstep
      cases hstep with
      | empty hsrc =>
        simp only [Outcome.more.injEq] at hgen
        obtain ⟨rfl, rfl⟩ := hgen
        rw [hsrc, await_headers]
      | unfinished hfind hsmall =>
        simp only [Outcome.more.injEq] at hgen
        obtain ⟨rfl, rfl⟩ := hgen
        rw [await_headers]
      | body pos hfind found hparse =>
        have hbody := isBody_of_parse hparse
        obtain ⟨rfl, rfl, hpositive⟩ := bodyOutcome_more hbody hgen.symm
        rw [await_body ⟨hbody, hpositive⟩, decodeAnew_some, decodeAnew_none,
          outcome_append hfind, hparse]
      | _ => cases hgen
  error_append := by
    intro awaited src e h later
    cases awaited with
    | some body =>
      rw [decodeAnew_some] at h
      exact absurd (forget_error h) bodyOutcome_error
    | none =>
      have hout := forget_error h
      have hstep := headerStep 0 src
      rw [Option.elim_none] at hout
      rw [hout] at hstep
      generalize hgen : Outcome.error e = out at hstep
      cases hstep with
      | tooBig hfind hbig =>
        have hlater : (src ++ later).length > Limits.headersSize := by
          rw [List.length_append]
          omega
        have hne : src ++ later ≠ [] := by
          intro hnil
          rw [hnil] at hlater
          cases hlater
        rw [decodeAnew_none, outcome_headers 0 hne, findHttpRequestEnd_append (.inr hbig), hfind]
        simp only [hlater, if_true]
        rw [← hgen]
        rfl
      | malformed pos hfind e' hparse =>
        rw [decodeAnew_none, outcome_append hfind, hparse]
        dsimp only
        rw [← hgen]
        rfl
      | body pos hfind found hparse => exact absurd hgen.symm bodyOutcome_error
      | _ => cases hgen

/-! ## The cursor -/

/-- What holds between the codec and its buffer: the cursor has skipped no terminator, and a body
that is waited for is not empty. -/
def Sound : CodecState → List UInt8 → Prop
  | .headers scanned, src => Scanned scanned src
  | state, _ => 0 < contentLength state

/-- The codec and the decoder without a cursor wait for the same. -/
def Tracks (state : CodecState) (src : List UInt8) (awaited : Awaited) : Prop :=
  Sound state src ∧ awaited = await state

theorem sound_zero (src : List UInt8) : Sound (.headers 0) src :=
  fun i hi => absurd hi (Nat.not_lt_zero i)

/-- **The search from the cursor is the search from the front.** -/
theorem outcome_scanned {scanned : Nat} {src : List UInt8} (h : Scanned scanned src) :
    forget (outcome (.headers scanned) src) = forget (outcome (.headers 0) src) := by
  by_cases hsrc : src = []
  · subst hsrc
    show Outcome.more (await _) _ = Outcome.more (await _) _
    rw [await_headers, await_headers]
  · rw [outcome_headers scanned hsrc, outcome_headers 0 hsrc, findHttpRequestEnd_scanned h]

theorem decodeAnew_of_tracks {state : CodecState} {src : List UInt8}
    (h : Tracks state src awaited) : decodeAnew awaited src = forget (outcome state src) := by
  obtain ⟨hsound, rfl⟩ := h
  cases state with
  | headers scanned =>
    rw [await_headers, decodeAnew_none]
    exact (outcome_scanned hsound).symm
  | requestBody method url proto headers length cseq =>
    have hbody : IsBody (.requestBody method url proto headers length cseq) := trivial
    rw [await_body ⟨hbody, hsound⟩]
    rfl
  | responseBody proto status headers length cseq =>
    have hbody : IsBody (.responseBody proto status headers length cseq) := trivial
    rw [await_body ⟨hbody, hsound⟩]
    rfl

/-- A step keeps the cursor sound. -/
theorem sound_step {state : CodecState} {src : List UInt8} (hsound : Sound state src)
    (h : outcome state src = .more next rest ∨
      ∃ frame, outcome state src = .item frame next rest) : Sound next rest := by
  have hbody : ∀ body, IsBody body → ∀ bytes,
      (bodyOutcome body bytes = .more next rest ∨
        ∃ frame, bodyOutcome body bytes = .item frame next rest) → Sound next rest := by
    rintro body hbody bytes (hmore | ⟨frame, hitem⟩)
    · obtain ⟨rfl, rfl, hpositive⟩ := bodyOutcome_more hbody hmore
      cases next with
      | headers _ => exact hbody.elim
      | _ => exact hpositive
    · obtain ⟨rfl, -, -⟩ := bodyOutcome_item hitem
      exact sound_zero rest
  cases state with
  | headers scanned =>
    have hstep := headerStep scanned src
    generalize outcome (.headers scanned) src = out at hstep h
    cases hstep with
    | empty hsrc =>
      obtain hmore | ⟨frame, hitem⟩ := h
      · simp only [Outcome.more.injEq] at hmore
        obtain ⟨rfl, rfl⟩ := hmore
        rwa [hsrc] at hsound
      · cases hitem
    | tooBig hfind hbig => obtain hmore | ⟨frame, hitem⟩ := h <;> contradiction
    | malformed pos hfind e hparse => obtain hmore | ⟨frame, hitem⟩ := h <;> contradiction
    | unfinished hfind hsmall =>
      obtain hmore | ⟨frame, hitem⟩ := h
      · simp only [Outcome.more.injEq] at hmore
        obtain ⟨rfl, rfl⟩ := hmore
        rw [Nat.min_eq_left hsmall] at hfind
        exact scanned_of_none hsound hfind
      · cases hitem
    | body pos hfind found hparse => exact hbody found (isBody_of_parse hparse) _ h
  | requestBody method url proto headers length cseq =>
    have hstate : IsBody (.requestBody method url proto headers length cseq) := trivial
    rw [outcome_body hstate] at h
    exact hbody _ hstate src h
  | responseBody proto status headers length cseq =>
    have hstate : IsBody (.responseBody proto status headers length cseq) := trivial
    rw [outcome_body hstate] at h
    exact hbody _ hstate src h

theorem Tracks.append {state : CodecState} {src : List UInt8}
    (h : Tracks state src awaited) (later : List UInt8) : Tracks state (src ++ later) awaited := by
  obtain ⟨hsound, rfl⟩ := h
  refine ⟨?_, rfl⟩
  cases state with
  | headers scanned => exact Scanned.append hsound later
  | _ => exact hsound

/-- **The codec follows the decoder without a cursor.** -/
theorem follows_decodeAnew : Follows outcome decodeAnew Tracks where
  append := Tracks.append
  item := by
    intro state src awaited frame next rest h hout
    refine ⟨await next, ?_, sound_step h.1 (.inr ⟨frame, hout⟩), rfl⟩
    rw [decodeAnew_of_tracks h, hout]
    rfl
  more := by
    intro state src awaited next rest h hout
    refine ⟨await next, ?_, sound_step h.1 (.inl hout), rfl⟩
    rw [decodeAnew_of_tracks h, hout]
    rfl
  error := by
    intro state src awaited e h hout
    rw [decodeAnew_of_tracks h, hout]
    rfl

theorem tracks_fresh : Tracks (.headers 0) [] none := ⟨sound_zero [], (await_headers 0).symm⟩

/-! ## The frame codec -/

/-- The items of a result and its error. -/
def itemsAndError {σ α ε : Type} (result : Result σ α UInt8 ε) : List α × Option ε :=
  (result.1, match result.2 with
    | .ok _ => none
    | .error e => some e)

theorem itemsAndError_alike {σ τ α ε : Type} {related : σ → List UInt8 → τ → Prop}
    {first : Result σ α UInt8 ε} {second : Result τ α UInt8 ε} (h : Alike related first second) :
    itemsAndError first = itemsAndError second := by
  obtain ⟨items, e | ⟨s, rest⟩⟩ := first <;> obtain ⟨items', e' | ⟨t, rest'⟩⟩ := second
  · obtain ⟨rfl, rfl⟩ := h
    rfl
  · exact h.2.elim
  · exact h.2.elim
  · obtain ⟨rfl, -⟩ := h
    rfl

/-- **The order in which bytes arrive and the codec is called does not matter** for the frames
and the first error. -/
theorem frames_of_calls (calls : List (Call UInt8)) :
    itemsAndError (finish outcome (run outcome (.headers 0) [] calls)) =
      itemsAndError (decodeAll outcome (.headers 0) (received calls)) := by
  have hrun := follows_decodeAnew.finish (follows_decodeAnew.run calls tracks_fresh)
  rw [lawful_decodeAnew.finish_run, List.nil_append] at hrun
  have hall : Alike Tracks (decodeAll outcome (.headers 0) (received calls))
      (decodeAll decodeAnew none (received calls)) :=
    follows_decodeAnew.drain (tracks_fresh.append (received calls))
  rw [itemsAndError_alike hrun, itemsAndError_alike hall]

/-- In every state that calls lead to, the cursor has skipped no terminator. -/
theorem sound_of_calls {calls : List (Call UInt8)} {frames : List RtspFrame} {state : CodecState}
    (h : run outcome (.headers 0) [] calls = (frames, .ok (state, rest))) : Sound state rest := by
  have halike := follows_decodeAnew.run calls tracks_fresh
  rw [h] at halike
  generalize run decodeAnew none [] calls = other at halike
  obtain ⟨items, e | ⟨t, rest'⟩⟩ := other
  · exact halike.2.elim
  · exact halike.2.2.1

/-! ## The transport codec -/

/-- A call of the transport codec as a decoder's step, whose items are batches of frames. -/
def transportOutcome (codec : TransportCodec) (src : List UInt8) :
    Outcome TransportCodec (List RtspFrame) UInt8 TransportError :=
  match TransportCodec.decode codec src with
  | (.ok (some frames), codec, rest) => .item frames codec rest
  | (.ok none, codec, rest) => .more codec rest
  | (.error e, _, _) => .error e

/-- The frames of all batches and the error. -/
def framesAndError (result : Result TransportCodec (List RtspFrame) UInt8 TransportError) :
    List RtspFrame × Option TransportError :=
  ((itemsAndError result).1.flatten, (itemsAndError result).2)

theorem bodyOutcome_length {body : CodecState} {bytes : List UInt8}
    (h : bodyOutcome body bytes = .more next rest ∨
      ∃ frame, bodyOutcome body bytes = .item frame next rest) : rest.length ≤ bytes.length := by
  obtain hmore | ⟨frame, hitem⟩ := h
  · unfold bodyOutcome at hmore
    split at hmore
    · cases hmore
      exact Nat.le_refl _
    · split at hmore
      · cases hmore
        exact Nat.le_refl _
      · cases hmore
  · have := (bodyOutcome_item hitem).2.1
    omega

/-- A step takes bytes off the front of the buffer only. -/
theorem outcome_length {state : CodecState} {src : List UInt8}
    (h : outcome state src = .more next rest ∨
      ∃ frame, outcome state src = .item frame next rest) : rest.length ≤ src.length := by
  cases state with
  | headers scanned =>
    have hstep := headerStep scanned src
    generalize outcome (.headers scanned) src = out at hstep h
    cases hstep with
    | empty hsrc =>
      obtain hmore | ⟨frame, hitem⟩ := h
      · cases hmore
        exact Nat.zero_le _
      · cases hitem
    | unfinished hfind hsmall =>
      obtain hmore | ⟨frame, hitem⟩ := h
      · cases hmore
        exact Nat.le_refl _
      · cases hitem
    | body pos hfind found hparse =>
      have := bodyOutcome_length h
      rw [List.length_drop] at this
      omega
    | _ => obtain hmore | ⟨frame, hitem⟩ := h <;> contradiction
  | requestBody method url proto headers length cseq =>
    have hstate : IsBody (.requestBody method url proto headers length cseq) := trivial
    rw [outcome_body hstate] at h
    exact bodyOutcome_length h
  | responseBody proto status headers length cseq =>
    have hstate : IsBody (.responseBody proto status headers length cseq) := trivial
    rw [outcome_body hstate] at h
    exact bodyOutcome_length h

/-- The loop of the transport codec decodes all frames, and loses them where one fails. -/
theorem decodeFrames_eq (fuel : Nat) (state : CodecState) (src : List UInt8)
    (frames : List RtspFrame) :
    match drain outcome fuel state src with
    | (more, .ok (next, rest)) =>
      TransportCodec.decodeFrames fuel state src src.length frames =
        (.ok (frames ++ more), next, rest, rest.length)
    | (_, .error e) =>
      ∃ next rest prefixLen, TransportCodec.decodeFrames fuel state src src.length frames =
        (.error e, next, rest, prefixLen) := by
  induction fuel generalizing state src frames with
  | zero => simp [drain, TransportCodec.decodeFrames]
  | succ fuel ih =>
    unfold drain TransportCodec.decodeFrames
    have hdecode : decodeWithLimit state src src.length = decode state src := rfl
    rw [hdecode]
    rcases hanswer : decode state src with ⟨e | _ | frame, next, rest⟩
    · have hout : outcome state src = .error e := by
        unfold outcome
        rw [hanswer]
      rw [hout]
      exact ⟨next, rest, src.length, rfl⟩
    · have hout : outcome state src = .more next rest := by
        unfold outcome
        rw [hanswer]
      have hlength := outcome_length (.inl hout)
      rw [hout]
      dsimp only
      rw [List.append_nil, show src.length - (src.length - rest.length) = rest.length by omega]
    · have hout : outcome state src = .item frame next rest := by
        unfold outcome
        rw [hanswer]
      have hlength := outcome_length (.inr ⟨frame, hout⟩)
      rw [hout]
      dsimp only
      rw [show src.length - (src.length - rest.length) = rest.length by omega]
      have hrest := ih next rest (frames ++ [frame])
      generalize drain outcome fuel next rest = result at hrest ⊢
      obtain ⟨more, e | ⟨last, left⟩⟩ := result
      · exact hrest
      · simpa only [prepend, List.append_assoc] using hrest

/-- A transport codec without a cipher that waits for what the decoder without a cursor does. -/
def PlainTracks (codec : TransportCodec) (src : List UInt8) (awaited : Awaited) : Prop :=
  codec.cipherCodec = none ∧ Tracks codec.frameCodec src awaited

/-- **A call of the transport codec** takes everything the buffer holds; an error takes the frames
before it along. -/
theorem transportOutcome_eq {src : List UInt8} (h : PlainTracks codec src awaited) :
    match decodeAll decodeAnew awaited src with
    | (frames, .ok (next, rest)) =>
      ∃ codec', PlainTracks codec' rest next ∧ transportOutcome codec src =
        if frames = [] then .more codec' rest else .item frames codec' rest
    | (_, .error e) => transportOutcome codec src = .error (.rtsp e) := by
  obtain ⟨hplain, htracks⟩ := h
  have halike : Alike Tracks (drain outcome (src.length + 1) codec.frameCodec src)
      (decodeAll decodeAnew awaited src) := follows_decodeAnew.drain htracks
  have hloop := decodeFrames_eq (src.length + 1) codec.frameCodec src []
  unfold transportOutcome TransportCodec.decode
  rw [hplain]
  dsimp only
  unfold TransportCodec.decodePrefix
  rw [Nat.min_self]
  rcases hdrain : drain outcome (src.length + 1) codec.frameCodec src with
    ⟨items, e | ⟨state, rest⟩⟩ <;>
    rcases hall : decodeAll decodeAnew awaited src with ⟨frames, e' | ⟨next, rest'⟩⟩ <;>
    rw [hdrain] at halike hloop <;> rw [hall] at halike
  · obtain ⟨rfl, rfl⟩ := halike
    obtain ⟨next, rest, prefixLen, hframes⟩ := hloop
    simp only [hframes]
  · exact halike.2.elim
  · exact halike.2.elim
  · obtain ⟨rfl, rfl, hnext⟩ := halike
    simp only [List.nil_append] at hloop
    simp only [hloop]
    refine ⟨{ codec with frameCodec := state, plaintextPrefixLen := rest.length },
      ⟨hplain, hnext⟩, ?_⟩
    by_cases hempty : items = []
    · subst hempty
      simp [hplain]
    · simp [hempty, hplain]

theorem PlainTracks.append {src : List UInt8}
    (h : PlainTracks codec src awaited) (later : List UInt8) :
    PlainTracks codec (src ++ later) awaited :=
  ⟨h.1, h.2.append later⟩

/-- What the transport codec makes of a stream whose frames and end are `whole`: without an error
all frames, otherwise the error and a front part of the frames before it. -/
def Delivers (got : List RtspFrame × Option TransportError)
    (whole : Result Awaited RtspFrame UInt8 RtspError) : Prop :=
  match whole with
  | (frames, .ok _) => got = (frames, none)
  | (frames, .error e) => ∃ lost, frames = got.1 ++ lost ∧ got.2 = some (.rtsp e)

theorem Delivers.prepend {got : List RtspFrame × Option TransportError}
    {whole : Result Awaited RtspFrame UInt8 RtspError} (h : Delivers got whole)
    (frames : List RtspFrame) :
    Delivers (frames ++ got.1, got.2) (StreamDecoder.prepend frames whole) := by
  obtain ⟨more, e | end_⟩ := whole
  · obtain ⟨lost, hframes, herror⟩ := h
    exact ⟨lost, by rw [hframes, List.append_assoc], herror⟩
  · obtain rfl : got = (more, none) := h
    rfl

theorem framesAndError_prepend (frames : List RtspFrame)
    (result : Result TransportCodec (List RtspFrame) UInt8 TransportError) :
    framesAndError (StreamDecoder.prepend [frames] result) =
      (frames ++ (framesAndError result).1, (framesAndError result).2) := rfl

/-- What is left after a call of the transport codec holds no further frame. -/
theorem delivers_settled {src : List UInt8} (h : PlainTracks codec src awaited)
    (hsettled : decodeAll decodeAnew awaited src = ([], .ok (awaited, src))) (fuel : Nat) :
    framesAndError (drain transportOutcome fuel codec src) = ([], none) := by
  cases fuel with
  | zero => rfl
  | succ fuel =>
    have hcall := transportOutcome_eq h
    rw [hsettled] at hcall
    obtain ⟨codec', -, hout⟩ := hcall
    rw [if_pos rfl] at hout
    unfold drain
    rw [hout]
    rfl

/-- Everything that a buffer holds, taken at once: an error is all that is left of the frames. -/
theorem framesAndError_decodeAll {src : List UInt8} (h : PlainTracks codec src awaited) :
    framesAndError (decodeAll transportOutcome codec src) =
      match decodeAll decodeAnew awaited src with
      | (frames, .ok _) => (frames, none)
      | (_, .error e) => ([], some (.rtsp e)) := by
  have hcall := transportOutcome_eq h
  show framesAndError (drain transportOutcome (src.length + 1) codec src) = _
  unfold drain
  rcases hall : decodeAll decodeAnew awaited src with ⟨frames, e | ⟨next, rest⟩⟩
  · rw [hall] at hcall
    simp only [hcall]
    rfl
  · rw [hall] at hcall
    obtain ⟨codec', htracks, hout⟩ := hcall
    by_cases hempty : frames = []
    · rw [if_pos hempty] at hout
      simp only [hout, hempty]
      rfl
    · rw [if_neg hempty] at hout
      simp only [hout]
      rw [framesAndError_prepend,
        delivers_settled htracks (lawful_decodeAnew.settled hall), List.append_nil]

/-- The calls of the transport codec, and what is left decoded at the end. -/
theorem delivers_calls (calls : List (Call UInt8)) {src : List UInt8}
    (h : PlainTracks codec src awaited) :
    Delivers (framesAndError (finish transportOutcome (run transportOutcome codec src calls)))
      (decodeAll decodeAnew awaited (src ++ received calls)) := by
  induction calls generalizing codec src awaited with
  | nil =>
    rw [received, List.append_nil]
    have hall := framesAndError_decodeAll h
    show Delivers (framesAndError (prepend [] (decodeAll transportOutcome codec src))) _
    rw [prepend_nil, hall]
    rcases decodeAll decodeAnew awaited src with ⟨frames, e | ⟨next, rest⟩⟩
    · exact ⟨frames, rfl, rfl⟩
    · rfl
  | cons call calls ih =>
    cases call with
    | append chunk =>
      rw [received, ← List.append_assoc]
      exact ih (h.append chunk)
    | decode =>
      rw [received, lawful_decodeAnew.decodeAll_append]
      have hcall := transportOutcome_eq h
      unfold run
      rcases hall : decodeAll decodeAnew awaited src with ⟨frames, e | ⟨next, rest⟩⟩
      · rw [hall] at hcall
        simp only [hcall]
        exact ⟨frames, rfl, rfl⟩
      · rw [hall] at hcall
        obtain ⟨codec', htracks, hout⟩ := hcall
        have hrest := ih htracks
        by_cases hempty : frames = []
        · rw [if_pos hempty] at hout
          simp only [hout, hempty, prepend_nil]
          exact hrest
        · rw [if_neg hempty] at hout
          simp only [hout]
          rw [finish_prepend, framesAndError_prepend]
          exact hrest.prepend frames

/-! ## Where fragmentation shows -/

/-- The stream holds a frame in front of its first malformed message. -/
def FrameBeforeError (bytes : List UInt8) : Prop :=
  (decodeAll outcome (.headers 0) bytes).1 ≠ [] ∧
    (itemsAndError (decodeAll outcome (.headers 0) bytes)).2 ≠ none

/-- A frame is read from its own bytes. -/
theorem outcome_own_bytes {src : List UInt8}
    (h : outcome (.headers 0) src = .item frame next rest) :
    ∃ own, src = own ++ rest ∧ outcome (.headers 0) own = .item frame (.headers 0) [] := by
  have hstep := headerStep 0 src
  rw [h] at hstep
  generalize hgen : Outcome.item frame next rest = out at hstep
  cases hstep with
  | body pos hfind found hparse =>
    obtain ⟨i, rfl, -, hsearch, hwindow, hbefore⟩ := findHttpRequestEnd_eq_some.mp hfind
    have hbounds := window_length hwindow
    obtain ⟨rfl, hlength, -⟩ := bodyOutcome_item hgen.symm
    rw [List.length_drop] at hlength
    have hitem := hgen.symm
    unfold bodyOutcome at hitem
    split at hitem
    · cases hitem
    · rename_i body hframe
      rw [if_neg (by rw [List.length_drop]; omega)] at hitem
      simp only [Outcome.item.injEq] at hitem
      obtain ⟨rfl, -, rfl⟩ := hitem
      rw [List.drop_drop] at hlength ⊢
      refine ⟨src.take (i + 4 + contentLength found), (List.take_append_drop _ src).symm, ?_⟩
      have hown : (src.take (i + 4 + contentLength found)).length =
          i + 4 + contentLength found := by
        rw [List.length_take]
        omega
      have hfindOwn : findHttpRequestEnd (src.take (i + 4 + contentLength found)) 0
          (min (src.take (i + 4 + contentLength found)).length Limits.headersSize) =
            some (i + 4) := by
        refine findHttpRequestEnd_eq_some.mpr ⟨i, rfl, Nat.zero_le i, by omega, ?_, ?_⟩
        · exact window_take.mpr ⟨hwindow, by omega⟩
        · intro j _ hj hwindowJ
          exact hbefore j (Nat.zero_le j) hj (window_take.mp hwindowJ).1
      have hne : src.take (i + 4 + contentLength found) ≠ [] := by
        intro hnil
        rw [hnil, List.length_nil] at hown
        omega
      rw [outcome_headers 0 hne, hfindOwn]
      dsimp only
      rw [List.take_take, show min (i + 4) (i + 4 + contentLength found) = i + 4 by omega, hparse]
      dsimp only
      have hbody : (src.take (i + 4 + contentLength found)).drop (i + 4) =
          (src.drop (i + 4)).take (contentLength found) := by
        rw [List.drop_take, show i + 4 + contentLength found - (i + 4) = contentLength found by
          omega]
      unfold bodyOutcome
      rw [hbody, List.take_take, Nat.min_self, hframe]
      dsimp only
      rw [if_neg (by rw [List.length_take, List.length_drop]; omega),
        List.drop_of_length_le (by rw [List.length_take]; omega)]
  | _ => cases hgen

/-- **Fragmentation does not show** in these calls: the frames and the first error of both codecs
are those of the whole stream at once, and the cursor has skipped no end of headers. -/
structure Unaffected (calls : List (Call UInt8)) : Prop where
  frames : itemsAndError (finish outcome (run outcome (.headers 0) [] calls)) =
    itemsAndError (decodeAll outcome (.headers 0) (received calls))
  cursor : ∀ frames scanned rest,
    run outcome (.headers 0) [] calls = (frames, .ok (.headers scanned, rest)) →
      ∀ searchLen, findHttpRequestEnd rest scanned searchLen = findHttpRequestEnd rest 0 searchLen
  transport :
    framesAndError (finish transportOutcome (run transportOutcome TransportCodec.new [] calls)) =
      framesAndError (decodeAll transportOutcome TransportCodec.new (received calls))

/-- **Fragmentation shows exactly in the streams with a frame in front of the first malformed
message**: the transport codec loses the frames of the call that fails. -/
theorem fragments_agree (bytes : List UInt8) :
    (∀ calls, received calls = bytes → Unaffected calls) ↔ ¬ FrameBeforeError bytes := by
  have hnew : PlainTracks TransportCodec.new [] none := ⟨rfl, tracks_fresh⟩
  have hone := framesAndError_decodeAll (hnew.append bytes)
  rw [List.nil_append] at hone
  have hall : Alike Tracks (decodeAll outcome (.headers 0) bytes) (decodeAll decodeAnew none bytes) :=
    follows_decodeAnew.drain (tracks_fresh.append bytes)
  have hbefore : FrameBeforeError bytes ↔ (decodeAll decodeAnew none bytes).1 ≠ [] ∧
      (itemsAndError (decodeAll decodeAnew none bytes)).2 ≠ none := by
    unfold FrameBeforeError
    rw [itemsAndError_alike hall, hall.1]
  constructor
  · intro h hframe
    obtain ⟨hframes, herror⟩ := hbefore.mp hframe
    -- the first frame arrives alone, the rest of the stream behind it
    rcases hwhole : decodeAll decodeAnew none bytes with ⟨frames, e | end_⟩
    · rw [hwhole] at hframes hone
      rw [lawful_decodeAnew.decodeAll_eq, decodeAnew_none] at hwhole
      cases hout : outcome (.headers 0) bytes with
      | more next rest => simp [hout, forget] at hwhole
      | error e' =>
        simp only [hout, forget, Prod.mk.injEq] at hwhole
        exact hframes hwhole.1.symm
      | item frame next rest =>
        obtain ⟨own, rfl, hown⟩ := outcome_own_bytes hout
        have hcall := transportOutcome_eq (hnew.append own)
        have hempty : decodeAll decodeAnew none [] = ([], .ok (none, [])) := by
          rw [lawful_decodeAnew.decodeAll_eq]
          show ([], Except.ok (await (.headers 0), [])) = _
          rw [await_headers]
        have hsingle : decodeAll decodeAnew none own = ([frame], .ok (none, [])) := by
          rw [lawful_decodeAnew.decodeAll_eq, decodeAnew_none, hown]
          show prepend [frame] (decodeAll decodeAnew (await (.headers 0)) []) = _
          rw [await_headers, hempty]
          rfl
        rw [List.nil_append, hsingle] at hcall
        obtain ⟨codec, -, hbatch⟩ := hcall
        rw [if_neg (List.cons_ne_nil frame [])] at hbatch
        have hreceived : received [.append own, .decode, .append rest] = own ++ rest := by
          simp [received]
        have hcalls := (h _ hreceived).transport
        rw [hreceived, hone] at hcalls
        simp only [run, List.nil_append, hbatch] at hcalls
        rw [finish_prepend, framesAndError_prepend] at hcalls
        have hfirst := congrArg Prod.fst hcalls
        exact List.cons_ne_nil _ _ hfirst
    · rw [hwhole] at herror
      exact herror rfl
  · intro hnot calls hcalls
    subst hcalls
    refine ⟨frames_of_calls calls, fun frames scanned rest hrun searchLen =>
      findHttpRequestEnd_scanned (sound_of_calls hrun) searchLen, ?_⟩
    have hdelivers := delivers_calls calls hnew
    rw [List.nil_append] at hdelivers
    rw [hone]
    rw [hbefore] at hnot
    rcases hwhole : decodeAll decodeAnew none (received calls) with ⟨frames, e | ⟨next, rest⟩⟩
    · rw [hwhole] at hdelivers hnot
      obtain ⟨lost, hframes, herror⟩ := hdelivers
      have hempty : frames = [] := by
        by_contra hne
        exact hnot ⟨hne, by simp [itemsAndError]⟩
      rw [hempty] at hframes
      exact Prod.ext (List.append_eq_nil_iff.mp hframes.symm).1 herror
    · rw [hwhole] at hdelivers
      exact hdelivers

/-- `GET /a RTSP/1.0`, without headers. -/
def wellFormedBytes : List UInt8 := Catplay.Library.Text.toUtf8 "GET /a RTSP/1.0\r\n\r\n".toList

/-- A first line of one token. -/
def malformedBytes : List UInt8 := Catplay.Library.Text.toUtf8 "X\r\n\r\n".toList

/-- The request that arrives before the malformed message is lost where both arrive together. -/
theorem fragments_differ :
    framesAndError (decodeAll transportOutcome TransportCodec.new
        (wellFormedBytes ++ malformedBytes)) =
      ([], some (.rtsp (.protocolViolation "request line too short"))) ∧
    framesAndError (finish transportOutcome (run transportOutcome TransportCodec.new []
        [.append wellFormedBytes, .decode, .append malformedBytes, .decode])) =
      ([.request ⟨.get, "/a".toList, "RTSP/1.0".toList, [], [], none⟩],
        some (.rtsp (.protocolViolation "request line too short"))) := by
  decide

end Catplay.Analysis.Rtsp
