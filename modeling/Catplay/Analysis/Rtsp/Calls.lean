import Catplay.Library.StreamDecoder
import Catplay.Model.Rtsp.TransportCodec

/-!
# Calls of the frame codec

What one call of the frame codec does, in the header state and in a body state, and where it finds
the end of the headers.
-/

set_option autoImplicit false

namespace Catplay.Analysis.Rtsp

open Catplay.Model.Rtsp Catplay.Model.Rtsp.FrameCodec Catplay.Library.StreamDecoder

theorem bind_ok {α β ε : Type} {x : Except ε α} {f : α → Except ε β} {b : β}
    (h : (x >>= f) = .ok b) : ∃ a, x = .ok a ∧ f a = .ok b := by
  cases x with
  | error e => cases h
  | ok a => exact ⟨a, rfl, h⟩

/-! ## Calls of the codec -/

/-- A call of the codec as a decoder's step. -/
def outcome (state : CodecState) (src : List UInt8) :
    Outcome CodecState RtspFrame UInt8 RtspError :=
  match decode state src with
  | (.ok (some frame), next, rest) => .item frame next rest
  | (.ok none, next, rest) => .more next rest
  | (.error e, _, _) => .error e

/-- The length of the body that is waited for. -/
def contentLength : CodecState → Nat
  | .headers _ => 0
  | .requestBody _ _ _ _ contentLength _ => contentLength
  | .responseBody _ _ _ contentLength _ => contentLength

/-- The frame whose body is there. -/
def frameOf : CodecState → List UInt8 → Option RtspFrame
  | .headers _, _ => none
  | .requestBody method url proto headers _ cseq, payload =>
    some (.request ⟨method, url, proto, headers, payload, cseq⟩)
  | .responseBody proto status headers _ cseq, payload =>
    some (.response ⟨proto, status, headers, payload, cseq⟩)

/-- The state is one of the two body states. -/
def IsBody : CodecState → Prop
  | .headers _ => False
  | _ => True

/-- The step in a body state. -/
def bodyOutcome (state : CodecState) (src : List UInt8) :
    Outcome CodecState RtspFrame UInt8 RtspError :=
  match frameOf state (src.take (contentLength state)) with
  | none => .more state src
  | some frame =>
    if src.length < contentLength state then .more state src
    else .item frame (.headers 0) (src.drop (contentLength state))

theorem isBody_of_bodyState {p0 p1 p2 : RtspString} {headers : Headers} {length : Nat}
    {next : CodecState} (h : bodyState p0 p1 p2 headers length = .ok next) : IsBody next := by
  unfold bodyState at h
  by_cases hslash : '/' ∈ p0
  · cases hcode : parseUnsigned (2 ^ 16 - 1) p1 with
    | none =>
      simp only [hslash, hcode, if_true] at h
      cases h
    | some code =>
      simp only [hslash, hcode, if_true, Except.ok.injEq] at h
      subst h
      trivial
  · simp only [hslash, if_false, Except.ok.injEq] at h
    subst h
    trivial

theorem isBody_of_parse {bytes : List UInt8} {next : CodecState}
    (h : parseHeaderBlock bytes = .ok next) : IsBody next := by
  unfold parseHeaderBlock at h
  split at h
  · cases h
  · split at h
    · cases h
    · split at h
      · cases h
      · split at h
        · cases h
        · obtain ⟨headers, -, h⟩ := bind_ok h
          obtain ⟨length, -, h⟩ := bind_ok h
          exact isBody_of_bodyState h

theorem decodeBody_eq {state : CodecState} (hbody : IsBody state) (src : List UInt8) :
    decodeBody state src src.length =
      match frameOf state (src.take (contentLength state)) with
      | none => (.ok none, state, src)
      | some frame =>
        if src.length < contentLength state then (.ok none, state, src)
        else (.ok (some frame), .headers 0, src.drop (contentLength state)) := by
  cases state with
  | headers _ => exact hbody.elim
  | requestBody method url proto headers length cseq =>
    unfold decodeBody frameOf contentLength
    by_cases h : src.length < length <;> simp [h]
  | responseBody proto status headers length cseq =>
    unfold decodeBody frameOf contentLength
    by_cases h : src.length < length <;> simp [h]

theorem outcome_body {state : CodecState} (hbody : IsBody state) (src : List UInt8) :
    outcome state src = bodyOutcome state src := by
  have hdecode : decode state src = decodeBody state src src.length := by
    cases state with
    | headers _ => exact hbody.elim
    | _ => simp [decode, decodeWithLimit]
  unfold outcome bodyOutcome
  rw [hdecode, decodeBody_eq hbody]
  cases frameOf state (src.take (contentLength state)) with
  | none => rfl
  | some frame => by_cases h : src.length < contentLength state <;> simp [h]

variable {src : List UInt8} {i cursor : Nat}

/-- The step in the header state. -/
theorem outcome_headers (scanned : Nat) (hsrc : src ≠ []) :
    outcome (.headers scanned) src =
      match findHttpRequestEnd src scanned (min src.length Limits.headersSize) with
      | none =>
        if src.length > Limits.headersSize then .error .headersTooBig
        else .more (.headers (src.length - 4)) src
      | some pos =>
        match parseHeaderBlock (src.take pos) with
        | .error e => .error e
        | .ok next => bodyOutcome next (src.drop pos) := by
  have hlength : src.length ≠ 0 := fun h => hsrc (List.length_eq_zero_iff.mp h)
  unfold outcome decode decodeWithLimit
  simp only [Nat.min_self, hlength, if_false]
  cases hfind : findHttpRequestEnd src scanned (min src.length Limits.headersSize) with
  | none => by_cases hbig : src.length > Limits.headersSize <;> simp [hbig]
  | some pos =>
    cases hparse : parseHeaderBlock (src.take pos) with
    | error e => simp [hparse]
    | ok next =>
      have hvisible : min (src.length - pos) (src.drop pos).length = (src.drop pos).length := by
        simp
      simp only [hparse, hvisible, decodeBody_eq (isBody_of_parse hparse)]
      unfold bodyOutcome
      cases frameOf next ((src.drop pos).take (contentLength next)) with
      | none => rfl
      | some frame =>
        by_cases h : (src.drop pos).length < contentLength next
        · simp only [h, if_true]
        · simp only [h, if_false]

/-! ## The end of the headers -/

theorem findTerminator_none (h : findTerminator src = none) (i : Nat) :
    (src.drop i).take 4 ≠ terminator := by
  induction src generalizing i with
  | nil => simp [terminator]
  | cons byte rest ih =>
    unfold findTerminator at h
    split at h
    · cases h
    · rename_i hhead
      cases i with
      | zero => exact hhead
      | succ i => exact ih (Option.map_eq_none_iff.mp h) i

theorem findTerminator_some (h : findTerminator src = some i) :
    (src.drop i).take 4 = terminator ∧ ∀ j < i, (src.drop j).take 4 ≠ terminator := by
  induction src generalizing i with
  | nil => cases h
  | cons byte rest ih =>
    unfold findTerminator at h
    split at h
    · rename_i hhead
      obtain rfl := Option.some.inj h
      exact ⟨hhead, fun j hj => absurd hj (Nat.not_lt_zero j)⟩
    · rename_i hhead
      obtain ⟨k, hk, rfl⟩ := Option.map_eq_some_iff.mp h
      obtain ⟨hwindow, hbefore⟩ := ih hk
      refine ⟨hwindow, fun j hj => ?_⟩
      cases j with
      | zero => exact hhead
      | succ j => exact hbefore j (by omega)

theorem findTerminator_eq_some (hwindow : (src.drop i).take 4 = terminator)
    (hbefore : ∀ j < i, (src.drop j).take 4 ≠ terminator) : findTerminator src = some i := by
  cases hfind : findTerminator src with
  | none => exact absurd hwindow (findTerminator_none hfind i)
  | some k =>
    obtain ⟨hk, hbeforeK⟩ := findTerminator_some hfind
    by_cases hlt : k < i
    · exact absurd hk (hbefore k hlt)
    · by_cases hgt : i < k
      · exact absurd hwindow (hbeforeK i hgt)
      · rw [show k = i by omega]

/-- A window of the front part is a window of the whole. -/
theorem window_take {stop : Nat} :
    ((src.take stop).drop i).take 4 = terminator ↔
      (src.drop i).take 4 = terminator ∧ i + 4 ≤ stop := by
  rw [List.drop_take, List.take_take]
  constructor
  · intro h
    have hlength := congrArg List.length h
    simp only [List.length_take, terminator, List.length_cons, List.length_nil] at hlength
    have hfour : min 4 (stop - i) = 4 := by omega
    rw [hfour] at h
    exact ⟨h, by omega⟩
  · rintro ⟨h, hstop⟩
    rwa [show min 4 (stop - i) = 4 by omega]

theorem window_length (h : (src.drop i).take 4 = terminator) :
    i + 4 ≤ src.length := by
  have hlength := congrArg List.length h
  simp only [List.length_take, List.length_drop, terminator, List.length_cons,
    List.length_nil] at hlength
  omega

/-- No terminator begins before the cursor, now or later. -/
def Scanned (cursor : Nat) (src : List UInt8) : Prop :=
  ∀ i < cursor, i + 4 ≤ src.length ∧ (src.drop i).take 4 ≠ terminator

theorem window_append {later : List UInt8} (h : i + 4 ≤ src.length) :
    ((src ++ later).drop i).take 4 = (src.drop i).take 4 := by
  rw [List.drop_append_of_le_length (by omega), List.take_append_of_le_length]
  rw [List.length_drop]
  omega

theorem Scanned.append (h : Scanned cursor src)
    (later : List UInt8) : Scanned cursor (src ++ later) := by
  intro i hi
  obtain ⟨hlength, hwindow⟩ := h i hi
  refine ⟨by rw [List.length_append]; omega, ?_⟩
  rwa [window_append hlength]

/-- The first terminator from the cursor on, by its windows. -/
theorem findHttpRequestEnd_eq_some {searchLen pos : Nat} :
    findHttpRequestEnd src cursor searchLen = some pos ↔
      ∃ i, pos = i + 4 ∧ cursor ≤ i ∧ pos ≤ searchLen ∧ (src.drop i).take 4 = terminator ∧
        ∀ j, cursor ≤ j → j < i → (src.drop j).take 4 ≠ terminator := by
  unfold findHttpRequestEnd
  dsimp only
  by_cases hstop : min searchLen src.length ≤ cursor
  · rw [if_pos hstop]
    constructor
    · rintro ⟨⟩
    · rintro ⟨i, rfl, hcursor, hsearch, hwindow, -⟩
      have := window_length hwindow
      omega
  · rw [if_neg hstop, Option.map_eq_some_iff]
    constructor
    · rintro ⟨k, hk, rfl⟩
      obtain ⟨hwindow, hbefore⟩ := findTerminator_some hk
      rw [List.drop_drop, window_take] at hwindow
      refine ⟨cursor + k, by omega, by omega, by omega, hwindow.1, fun j hj hjk hwindowJ => ?_⟩
      refine hbefore (j - cursor) (by omega) ?_
      rw [List.drop_drop, window_take, show cursor + (j - cursor) = j by omega]
      exact ⟨hwindowJ, by omega⟩
    · rintro ⟨i, rfl, hcursor, hsearch, hwindow, hbefore⟩
      have := window_length hwindow
      refine ⟨i - cursor, findTerminator_eq_some ?_ fun j hj => ?_, by omega⟩
      · rw [List.drop_drop, window_take, show cursor + (i - cursor) = i by omega]
        exact ⟨hwindow, by omega⟩
      · rw [List.drop_drop, Ne, window_take]
        rintro ⟨hwindowJ, -⟩
        exact hbefore (cursor + j) (by omega) (by omega) hwindowJ

/-- **The cursor never skips a terminator**: looking behind it finds what looking from the front
finds. -/
theorem findHttpRequestEnd_scanned (h : Scanned cursor src) (searchLen : Nat) :
    findHttpRequestEnd src cursor searchLen = findHttpRequestEnd src 0 searchLen := by
  ext pos
  simp only [findHttpRequestEnd_eq_some]
  constructor
  · rintro ⟨i, hpos, hcursor, hsearch, hwindow, hbefore⟩
    refine ⟨i, hpos, Nat.zero_le i, hsearch, hwindow, fun j _ hj => ?_⟩
    by_cases hjc : j < cursor
    · exact (h j hjc).2
    · exact hbefore j (by omega) hj
  · rintro ⟨i, hpos, -, hsearch, hwindow, hbefore⟩
    have hcursor : cursor ≤ i := by
      by_contra hlt
      exact (h i (by omega)).2 hwindow
    exact ⟨i, hpos, hcursor, hsearch, hwindow, fun j _ hj => hbefore j (Nat.zero_le j) hj⟩

/-- Without a terminator, all but the last four bytes are scanned. -/
theorem scanned_of_none (h : Scanned cursor src)
    (hfind : findHttpRequestEnd src cursor src.length = none) : Scanned (src.length - 4) src := by
  intro i hi
  refine ⟨by omega, fun hwindow => ?_⟩
  rw [findHttpRequestEnd_scanned h] at hfind
  have hexists : ∃ k, (src.drop k).take 4 = terminator := ⟨i, hwindow⟩
  classical
  have hfirst := Nat.find_spec hexists
  have hsome : findHttpRequestEnd src 0 src.length = some (Nat.find hexists + 4) :=
    findHttpRequestEnd_eq_some.mpr ⟨_, rfl, Nat.zero_le _, window_length hfirst, hfirst,
      fun j _ hj => Nat.find_min hexists hj⟩
  rw [hfind] at hsome
  cases hsome

end Catplay.Analysis.Rtsp
