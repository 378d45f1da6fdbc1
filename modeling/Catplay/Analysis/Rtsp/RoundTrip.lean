import Catplay.Analysis.Rtsp.Heads

/-!
# A frame reads back

What the encoder writes, the decoder reads as the same frame, as long as each name in it is one
that its table reads back, and the first line has its three tokens.
-/

set_option autoImplicit false

namespace Catplay.Analysis.Rtsp

open Catplay.Model.Rtsp Catplay.Model.Rtsp.FrameCodec Catplay.Library.Text

/-! ## The frame as it is written -/

def headersOf : RtspFrame → Headers
  | .request request => request.headers
  | .response response => response.headers

def payloadOf : RtspFrame → List UInt8
  | .request request => request.payload
  | .response response => response.payload

def cseqOf : RtspFrame → Option UInt32
  | .request request => request.cseq
  | .response response => response.cseq

def firstLine : RtspFrame → RtspString
  | .request request => request.method.asStr ++ ' ' :: (request.url ++ ' ' :: request.proto)
  | .response response =>
    response.proto ++ ' ' :: (response.status.asCodeStr ++ ' ' :: response.status.reasonPhrase)

/-- The headers that the encoder keeps. -/
def keptHeaders (frame : RtspFrame) : Headers := (headersOf frame).fixDynamicHeaders

/-- The headers that the encoder adds. -/
def addedHeaders (frame : RtspFrame) : Headers :=
  (if (payloadOf frame).isEmpty then []
    else [(.contentLength, decimal (payloadOf frame).length)]) ++
    match cseqOf frame with
    | none => []
    | some cseq => [(.cseq, decimal cseq.toNat)]

def sentHeaders (frame : RtspFrame) : Headers := keptHeaders frame ++ addedHeaders frame

/-- **The same frame**, up to the two headers that the encoder makes itself. -/
def Same : RtspFrame → RtspFrame → Prop
  | .request a, .request b =>
    a.method = b.method ∧ a.url = b.url ∧ a.proto = b.proto ∧
      a.headers.fixDynamicHeaders = b.headers.fixDynamicHeaders ∧ a.payload = b.payload ∧
      a.cseq = b.cseq
  | .response a, .response b =>
    a.proto = b.proto ∧ a.status = b.status ∧
      a.headers.fixDynamicHeaders = b.headers.fixDynamicHeaders ∧ a.payload = b.payload ∧
      a.cseq = b.cseq
  | _, _ => False

/-- The frame is what the decoder makes of its bytes. -/
def RoundTrips (frame : RtspFrame) : Prop :=
  ∃ read, decode (.headers 0) (encode frame) = (.ok (some read), .headers 0, []) ∧
    Same read frame

/-- **Within the limits of the codec**: no whitespace in the URL, no separator or line break in a
header, and the sizes that the decoder accepts. -/
structure WithinLimits (frame : RtspFrame) : Prop where
  url : ∀ request, frame = .request request → ∀ c ∈ request.url, isAsciiWhitespace c = false
  clean : ∀ header ∈ keptHeaders frame, CleanHeader header
  line : RtspString.len (firstLine frame) ≤ Limits.requestLineSize
  count : (sentHeaders frame).length ≤ Limits.headersCount
  name : ∀ header ∈ keptHeaders frame, RtspString.len header.1.asStr ≤ Limits.headerNameSize
  value : ∀ header ∈ keptHeaders frame, RtspString.len header.2 ≤ Limits.headerValueSize
  head : (toUtf8 (headText (firstLine frame) (sentHeaders frame))).length ≤ Limits.headersSize
  payload : (payloadOf frame).length ≤ Limits.payloadSize

/-- The name of the header is read as the header. -/
def Readable (header : HttpHeader × RtspString) : Prop :=
  HttpHeader.fromStr header.1.asStr = header.1

instance : DecidablePred Readable := fun header =>
  inferInstanceAs (Decidable (HttpHeader.fromStr header.1.asStr = header.1))

/-- **What the decoder can read**: three tokens in the first line, a version with a slash in a
response only, a status that is known, and names that read back. -/
def ReadableFrame : RtspFrame → Prop
  | .request request =>
    request.url ≠ [] ∧ IsToken request.proto ∧
      ∀ header ∈ request.headers.fixDynamicHeaders, Readable header
  | .response response =>
    IsToken response.proto ∧ '/' ∈ response.proto ∧ (∀ code, response.status ≠ .unknown code) ∧
      ∀ header ∈ response.headers.fixDynamicHeaders, Readable header

theorem serializeHeader_eq (header : HttpHeader × RtspString) :
    serializeHeader header.1.asStr header.2 = toUtf8 (headerText header ++ crlf) := by
  unfold serializeHeader headerText
  rw [toUtf8_append, toUtf8_append, toUtf8_append]
  simp only [List.append_assoc]
  rfl

theorem serializeHeaders_eq (frame : RtspFrame) :
    serializeHeaders (headersOf frame) (payloadOf frame) (cseqOf frame) =
      toUtf8 (headerLines (sentHeaders frame) ++ crlf) := by
  have hlines : ∀ headers : Headers, toUtf8 (headerLines headers) =
      headers.flatMap fun header => serializeHeader header.1.asStr header.2 := by
    intro headers
    induction headers with
    | nil => rfl
    | cons header headers ih =>
      rw [headerLines_cons, ← List.append_assoc, toUtf8_append, ih, ← serializeHeader_eq]
      rfl
  rw [toUtf8_append, hlines, sentHeaders, List.flatMap_append, addedHeaders, List.flatMap_append]
  unfold serializeHeaders
  simp only [List.append_assoc]
  congr 1
  congr 1
  · split <;> simp
  · cases cseqOf frame <;> simp [crlf]

theorem toUtf8_space (s : RtspString) : toUtf8 (' ' :: s) = toUtf8 " ".toList ++ toUtf8 s := rfl

/-- The bytes of a frame are its head and its body. -/
theorem encode_eq (frame : RtspFrame) :
    encode frame = toUtf8 (headText (firstLine frame) (sentHeaders frame)) ++ payloadOf frame := by
  have hheaders := serializeHeaders_eq frame
  rw [headText, toUtf8_append, toUtf8_append, ← hheaders]
  cases frame with
  | request request =>
    simp only [encode, RtspRequest.serializeWithoutPayload, firstLine, headersOf, payloadOf,
      cseqOf, toUtf8_append, toUtf8_space, List.append_assoc, crlf]
  | response response =>
    simp only [encode, RtspResponse.serializeWithoutPayload, firstLine, headersOf, payloadOf,
      cseqOf, toUtf8_append, toUtf8_space, List.append_assoc, crlf]

/-! ## The tables -/

theorem isToken_method (method : RtspMethod) : IsToken method.asStr := by
  refine ⟨by cases method <;> decide, no_whitespace_of_all ?_⟩
  cases method <;> decide

theorem fromStr_method (method : RtspMethod) : RtspMethod.fromStr method.asStr = some method := by
  cases method <;> decide

theorem slash_not_mem_method (method : RtspMethod) : '/' ∉ method.asStr := by
  cases method <;> decide

theorem isToken_asCodeStr (status : HttpStatus) : IsToken status.asCodeStr := by
  have hdigit : ∀ d < 10, isAsciiWhitespace (.ofNat (48 + d)) = false := by decide
  refine ⟨by simp [HttpStatus.asCodeStr], fun c hc => ?_⟩
  simp only [HttpStatus.asCodeStr, List.mem_cons, List.not_mem_nil, or_false] at hc
  rcases hc with rfl | rfl | rfl
  · exact hdigit _ (Nat.mod_lt _ (by decide))
  · exact hdigit _ (Nat.mod_lt _ (by decide))
  · exact hdigit _ (Nat.mod_lt _ (by decide))

/-- **Every known status reads back**, and has a reason phrase on one line. -/
theorem status_reads_back (status : HttpStatus) (h : ∀ code, status ≠ .unknown code) :
    (parseUnsigned (2 ^ 16 - 1) status.asCodeStr).map (fun n => HttpStatus.fromCode (.ofNat n)) =
        some status ∧
      (parseToken status.reasonPhrase).isSome ∧ '\r' ∉ status.reasonPhrase := by
  cases status with
  | unknown code => exact absurd rfl (h code)
  | _ => decide +kernel

/-- A name that was read is one that reads back. -/
theorem fromStr_asStr_fromStr (s : RtspString) :
    HttpHeader.fromStr (HttpHeader.fromStr s).asStr = HttpHeader.fromStr s := by
  have hnames : ∀ entry ∈ HttpHeader.names, HttpHeader.fromStr entry.2.asStr = entry.2 := by
    decide +kernel
  cases hfind : HttpHeader.names.find? (·.1.toList = s) with
  | none =>
    have hother : HttpHeader.fromStr s = .other s := by
      rw [HttpHeader.fromStr, hfind]
    rw [hother]
    exact hother
  | some entry =>
    have hentry : HttpHeader.fromStr s = entry.2 := by
      rw [HttpHeader.fromStr, hfind]
    rw [hentry]
    exact hnames entry (List.mem_of_find?_eq_some hfind)

/-! ## What is readable is read -/

theorem IsToken.no_break {s : RtspString} (h : IsToken s) : '\r' ∉ s := fun hmem =>
  absurd (h.2 '\r' hmem) (by decide)

theorem decimal_no_break (n : Nat) : '\r' ∉ decimal n := fun hmem =>
  absurd (Nat.isDigit_of_mem_toDigits (by decide) (by decide) hmem) (by decide)

variable {frame : RtspFrame} {header : HttpHeader × RtspString} {next : CodecState}
  {rest src : List UInt8}

/-- The two added headers are clean and read back. -/
theorem added_clean (h : header ∈ addedHeaders frame) :
    header.1 ∈ [HttpHeader.contentLength, .cseq] ∧ CleanHeader header ∧ Readable header := by
  have hkeys : ∀ key ∈ [HttpHeader.contentLength, .cseq],
      ' ' ∉ key.asStr ∧ '\r' ∉ key.asStr ∧ HttpHeader.fromStr key.asStr = key := by
    decide
  have hheader : header.1 ∈ [HttpHeader.contentLength, .cseq] ∧ ∃ n, header.2 = decimal n := by
    rcases List.mem_append.mp h with hmem | hmem
    · split at hmem
      · cases hmem
      · obtain rfl := List.mem_singleton.mp hmem
        exact ⟨List.mem_cons_self, _, rfl⟩
    · split at hmem
      · cases hmem
      · obtain rfl := List.mem_singleton.mp hmem
        exact ⟨List.mem_cons_of_mem _ List.mem_cons_self, _, rfl⟩
  obtain ⟨hkey, n, hvalue⟩ := hheader
  obtain ⟨hname, hline, hread⟩ := hkeys _ hkey
  refine ⟨hkey, ⟨fun hpart => hname (hpart.subset (by decide)), hline, ?_⟩, hread⟩
  rw [hvalue]
  exact decimal_no_break n

theorem sent_clean (h : WithinLimits frame) :
    ∀ header ∈ sentHeaders frame, CleanHeader header := by
  intro header hmem
  rcases List.mem_append.mp hmem with hkept | hadded
  · exact h.clean header hkept
  · exact (added_clean hadded).2.1

theorem reread_sent (h : ∀ header ∈ keptHeaders frame, Readable header) :
    (sentHeaders frame).map reread = sentHeaders frame := by
  refine (List.map_congr_left fun header hmem => ?_).trans (List.map_id _)
  have hread : Readable header := by
    rcases List.mem_append.mp hmem with hkept | hadded
    · exact h header hkept
    · exact (added_clean hadded).2.2
  exact Prod.ext hread rfl

/-- Neither of the added headers is among those that were kept. -/
theorem kept_ne
    (h : header ∈ keptHeaders frame) : header.1 ≠ .contentLength ∧ header.1 ≠ .cseq := by
  unfold keptHeaders Headers.fixDynamicHeaders at h
  rw [List.mem_filter, List.mem_filter] at h
  exact ⟨of_decide_eq_true h.1.2, of_decide_eq_true h.2⟩

theorem fix_sent (frame : RtspFrame) :
    (sentHeaders frame).fixDynamicHeaders = keptHeaders frame := by
  have hkept : (keptHeaders frame).fixDynamicHeaders = keptHeaders frame := by
    unfold Headers.fixDynamicHeaders
    rw [List.filter_filter]
    refine List.filter_eq_self.mpr fun header hmem => ?_
    obtain ⟨hlength, hcseq⟩ := kept_ne hmem
    simp [hlength, hcseq]
  have hadded : (addedHeaders frame).fixDynamicHeaders = [] := by
    unfold Headers.fixDynamicHeaders
    rw [List.filter_filter]
    refine List.filter_eq_nil_iff.mpr fun header hmem => ?_
    have hkey := (added_clean hmem).1
    simp only [List.mem_cons, List.not_mem_nil, or_false] at hkey
    rcases hkey with hkey | hkey <;> simp [hkey]
  have happend : (sentHeaders frame).fixDynamicHeaders =
      (keptHeaders frame).fixDynamicHeaders ++ (addedHeaders frame).fixDynamicHeaders := by
    unfold sentHeaders Headers.fixDynamicHeaders
    rw [List.filter_append, List.filter_append]
  rw [happend, hkept, hadded, List.append_nil]

/-- A header that the encoder makes is looked for among those it added. -/
theorem extract_sent {key : HttpHeader} (hkey : key ∈ [HttpHeader.contentLength, .cseq]) :
    (sentHeaders frame).extract key = (addedHeaders frame).extract key := by
  unfold Headers.extract sentHeaders
  rw [List.find?_append, List.find?_eq_none.mpr fun header hmem heq => ?_]
  · rfl
  · obtain ⟨hlength, hcseq⟩ := kept_ne hmem
    have hsame : header.1 = key := of_decide_eq_true heq
    simp only [List.mem_cons, List.not_mem_nil, or_false] at hkey
    rcases hkey with rfl | rfl
    · exact hlength hsame
    · exact hcseq hsame

theorem contentLength_sent (h : (payloadOf frame).length ≤ Limits.payloadSize) :
    (sentHeaders frame).extractContentLength = some (payloadOf frame).length := by
  unfold Headers.extractContentLength
  rw [extract_sent (by decide)]
  unfold addedHeaders Headers.extract
  by_cases hempty : (payloadOf frame).isEmpty = true
  · rw [if_pos hempty, List.isEmpty_iff.mp hempty]
    cases cseqOf frame <;> rfl
  · have hbound : (payloadOf frame).length ≤ 2 ^ 64 - 1 :=
      Nat.le_trans h (by decide)
    have hparse := parseUnsigned_decimal hbound
    have hfound : ([(HttpHeader.contentLength, decimal (payloadOf frame).length)] ++
        match cseqOf frame with
        | none => []
        | some cseq => [(.cseq, decimal cseq.toNat)]).find? (·.1 = HttpHeader.contentLength) =
        some (.contentLength, decimal (payloadOf frame).length) := by
      rfl
    rw [if_neg hempty]
    simp only [hfound, Option.map_some, hparse]

theorem cseq_sent (frame : RtspFrame) : (sentHeaders frame).extractCseq = cseqOf frame := by
  unfold Headers.extractCseq
  rw [extract_sent (by decide)]
  unfold addedHeaders Headers.extract
  cases hcseq : cseqOf frame with
  | none =>
    have hfound : ((if (payloadOf frame).isEmpty then []
        else [(HttpHeader.contentLength, decimal (payloadOf frame).length)]) ++
          ([] : Headers)).find? (·.1 = HttpHeader.cseq) = none := by
      split <;> rfl
    simp only [hfound, Option.map_none]
  | some cseq =>
    have hbound : cseq.toNat ≤ 2 ^ 32 - 1 := by
      have := cseq.toNat_lt
      omega
    have hparse := parseUnsigned_decimal hbound
    have hfound : ((if (payloadOf frame).isEmpty then []
        else [(HttpHeader.contentLength, decimal (payloadOf frame).length)]) ++
          [(HttpHeader.cseq, decimal cseq.toNat)]).find? (·.1 = HttpHeader.cseq) =
        some (.cseq, decimal cseq.toNat) := by
      split <;> rfl
    simp only [hfound, Option.map_some, hparse, UInt32.ofNat_toNat]

/-- A number of ten digits is within the limits of a header value. -/
theorem decimal_size {n : Nat} (h : n < 10 ^ 10) :
    RtspString.len (decimal n) ≤ Limits.headerValueSize := by
  have hlength : (decimal n).length ≤ 10 :=
    (Nat.length_toDigits_le_iff (by decide) (by decide)).mpr h
  have hbytes := length_toUtf8_le (decimal n)
  unfold RtspString.len Limits.headerValueSize
  omega

theorem added_sizes (h : WithinLimits frame) (hmem : header ∈ addedHeaders frame) :
    RtspString.len header.1.asStr ≤ Limits.headerNameSize ∧
      RtspString.len header.2 ≤ Limits.headerValueSize := by
  have hkeys : ∀ key ∈ [HttpHeader.contentLength, .cseq],
      RtspString.len key.asStr ≤ Limits.headerNameSize := by
    decide
  refine ⟨hkeys _ (added_clean hmem).1, ?_⟩
  rcases List.mem_append.mp hmem with hmem | hmem
  · split at hmem
    · cases hmem
    · obtain rfl := List.mem_singleton.mp hmem
      refine decimal_size (Nat.lt_of_le_of_lt h.payload ?_)
      decide
  · split at hmem
    · cases hmem
    · rename_i cseq _
      obtain rfl := List.mem_singleton.mp hmem
      have := cseq.toNat_lt
      refine decimal_size ?_
      omega

theorem checkHeaders_sent (h : WithinLimits frame) :
    checkHeaders (sentHeaders frame) = .ok (payloadOf frame).length := by
  have hsizes : ∀ header ∈ sentHeaders frame,
      RtspString.len header.1.asStr ≤ Limits.headerNameSize ∧
        RtspString.len header.2 ≤ Limits.headerValueSize := by
    intro header hmem
    rcases List.mem_append.mp hmem with hkept | hadded
    · exact ⟨h.name header hkept, h.value header hkept⟩
    · exact added_sizes h hadded
  unfold checkHeaders
  rw [if_neg (Nat.not_lt.mpr h.count)]
  refine (if_neg fun hany => ?_).trans ?_
  · obtain ⟨header, hmem, hbig⟩ := List.any_eq_true.mp hany
    obtain ⟨hname, hvalue⟩ := hsizes header hmem
    rcases Bool.or_eq_true_iff.mp hbig with hbig | hbig
    · exact Nat.not_lt.mpr hname (of_decide_eq_true hbig)
    · exact Nat.not_lt.mpr hvalue (of_decide_eq_true hbig)
  · rw [contentLength_sent h.payload]
    exact if_neg (Nat.not_lt.mpr h.payload)

/-- The first line stays on its line. -/
theorem firstLine_no_break (h : WithinLimits frame)
    (hproto : ∀ request, frame = .request request → IsToken request.proto)
    (hstatus : ∀ response, frame = .response response →
      IsToken response.proto ∧ '\r' ∉ response.status.reasonPhrase) :
    '\r' ∉ firstLine frame := by
  cases frame with
  | request request =>
    have hurl : '\r' ∉ request.url := fun hmem =>
      absurd (h.url request rfl '\r' hmem) (by decide)
    simp only [firstLine, List.mem_append, List.mem_cons, not_or]
    exact ⟨(isToken_method request.method).no_break, by decide, hurl, by decide,
      (hproto request rfl).no_break⟩
  | response response =>
    simp only [firstLine, List.mem_append, List.mem_cons, not_or]
    exact ⟨(hstatus response rfl).1.no_break, by decide,
      (isToken_asCodeStr response.status).no_break, by decide, (hstatus response rfl).2⟩

/-- The state behind the head of a readable request. -/
theorem parse_request {request : RtspRequest} (h : WithinLimits (.request request))
    (hread : ReadableFrame (.request request)) :
    parseHeaderBlock (toUtf8 (headText (firstLine (.request request))
        (sentHeaders (.request request)))) =
      .ok (.requestBody request.method request.url request.proto (sentHeaders (.request request))
        request.payload.length request.cseq) := by
  obtain ⟨hurl, hproto, hheaders⟩ := hread
  have hline : '\r' ∉ firstLine (.request request) :=
    firstLine_no_break h (fun _ heq => by cases heq; exact hproto) (fun _ heq => by cases heq)
  have htokens : parseRequestLineParts (firstLine (.request request)) =
      some (request.method.asStr, request.url, request.proto) := by
    rw [firstLine, parseRequestLineParts_eq (isToken_method _) ⟨hurl, h.url request rfl⟩]
    have hlast := parseToken_token hproto (Or.inl rfl)
    rw [List.append_nil] at hlast
    rw [hlast]
    rfl
  have hreread : (sentHeaders (.request request)).map reread = sentHeaders (.request request) :=
    reread_sent hheaders
  rw [parseHeaderBlock_head hline (sent_clean h), if_neg (Nat.not_lt.mpr h.line), htokens,
    hreread, checkHeaders_sent h]
  show bodyState _ _ _ _ _ = _
  rw [bodyState, if_neg (slash_not_mem_method _), fromStr_method, cseq_sent]
  rfl

/-- The state behind the head of a readable response. -/
theorem parse_response {response : RtspResponse} (h : WithinLimits (.response response))
    (hread : ReadableFrame (.response response)) :
    parseHeaderBlock (toUtf8 (headText (firstLine (.response response))
        (sentHeaders (.response response)))) =
      .ok (.responseBody response.proto response.status (sentHeaders (.response response))
        response.payload.length response.cseq) := by
  obtain ⟨hproto, hslash, hknown, hheaders⟩ := hread
  obtain ⟨hcode, hreason, hphrase⟩ := status_reads_back response.status hknown
  have hline : '\r' ∉ firstLine (.response response) :=
    firstLine_no_break h (fun _ heq => by cases heq)
      (fun _ heq => by cases heq; exact ⟨hproto, hphrase⟩)
  obtain ⟨⟨p2, rest⟩, hlast⟩ := Option.isSome_iff_exists.mp hreason
  have htokens : parseRequestLineParts (firstLine (.response response)) =
      some (response.proto, response.status.asCodeStr, p2) := by
    rw [firstLine, parseRequestLineParts_eq hproto (isToken_asCodeStr _), hlast]
    rfl
  obtain ⟨code, hparse, hstatus⟩ := Option.map_eq_some_iff.mp hcode
  have hreread : (sentHeaders (.response response)).map reread =
      sentHeaders (.response response) :=
    reread_sent hheaders
  rw [parseHeaderBlock_head hline (sent_clean h), if_neg (Nat.not_lt.mpr h.line), htokens,
    hreread, checkHeaders_sent h]
  show bodyState _ _ _ _ _ = _
  rw [bodyState, if_pos hslash, hparse, cseq_sent]
  show Except.ok (CodecState.responseBody _ (HttpStatus.fromCode (.ofNat code)) _ _ _) = _
  rw [hstatus]
  rfl

theorem outcome_eq_item {state : CodecState} :
    outcome state src = .item frame next rest ↔
      decode state src = (.ok (some frame), next, rest) := by
  unfold outcome
  constructor
  · intro h
    split at h
    · rename_i heq
      rw [heq]
      cases h
      rfl
    · cases h
    · cases h
  · intro h
    rw [h]

/-- The frame with its two dynamic headers made by the encoder. -/
def asSent (frame : RtspFrame) : RtspFrame :=
  match frame with
  | .request request => .request { request with headers := sentHeaders (.request request) }
  | .response response => .response { response with headers := sentHeaders (.response response) }

theorem same_asSent (frame : RtspFrame) : Same (asSent frame) frame := by
  cases frame with
  | request request => exact ⟨rfl, rfl, rfl, fix_sent (.request request), rfl, rfl⟩
  | response response => exact ⟨rfl, rfl, fix_sent (.response response), rfl, rfl⟩

/-- **A readable frame reads back**, whatever follows it. -/
theorem decode_encode (h : WithinLimits frame) (hread : ReadableFrame frame) (later : List UInt8) :
    decode (.headers 0) (encode frame ++ later) =
      (.ok (some (asSent frame)), .headers 0, later) := by
  rw [← outcome_eq_item, encode_eq, List.append_assoc]
  cases frame with
  | request request =>
    have hproto := hread.2.1
    have hline : '\r' ∉ firstLine (.request request) :=
      firstLine_no_break h (fun _ heq => by cases heq; exact hproto) (fun _ heq => by cases heq)
    rw [outcome_head hline (sent_clean h) h.head, parse_request h hread]
    simp [bodyOutcome, frameOf, contentLength, payloadOf, asSent]
  | response response =>
    have hphrase := (status_reads_back response.status hread.2.2.1).2.2
    have hline : '\r' ∉ firstLine (.response response) :=
      firstLine_no_break h (fun _ heq => by cases heq)
        (fun _ heq => by cases heq; exact ⟨hread.1, hphrase⟩)
    rw [outcome_head hline (sent_clean h) h.head, parse_response h hread]
    simp [bodyOutcome, frameOf, contentLength, payloadOf, asSent]

/-! ## What is read is readable -/

/-- The name of the header came out of the table. -/
def Tabled (header : HttpHeader × RtspString) : Prop := ∃ name, header.1 = .fromStr name

theorem Tabled.readable (h : Tabled header) :
    Readable header := by
  obtain ⟨name, hname⟩ := h
  rw [Readable, hname]
  exact fromStr_asStr_fromStr name

theorem tabled_of_parseHeaders {fuel : Nat} {block : RtspString} {acc headers : Headers}
    (h : parseHeaders fuel block acc = .ok headers) (hacc : ∀ header ∈ acc, Tabled header) :
    ∀ header ∈ headers, Tabled header := by
  induction fuel generalizing block acc with
  | zero =>
    obtain rfl := Except.ok.inj h
    exact hacc
  | succ fuel ih =>
    cases block with
    | nil =>
      obtain rfl := Except.ok.inj h
      exact hacc
    | cons c block =>
      rw [parseHeaders] at h
      · cases hsplit : splitAtPattern "\r\n".toList (c :: block) with
        | none =>
          simp only [hsplit] at h
          cases h
        | some split =>
          obtain ⟨line, rest⟩ := split
          simp only [hsplit] at h
          by_cases hempty : line = []
          · rw [if_pos hempty] at h
            obtain rfl := Except.ok.inj h
            exact hacc
          · rw [if_neg hempty] at h
            cases hheader : parseHeader line with
            | error e =>
              simp only [hheader] at h
              cases h
            | ok header =>
              simp only [hheader] at h
              refine ih h fun other hmem => ?_
              rcases List.mem_append.mp hmem with hold | hnew
              · exact hacc other hold
              · obtain rfl := List.mem_singleton.mp hnew
                unfold parseHeader at hheader
                split at hheader
                · cases hheader
                · obtain rfl := Except.ok.inj hheader
                  exact ⟨_, rfl⟩
      · exact fun heq => by cases heq

/-- The state behind a head has tokens where it says so, and tabled names. -/
def TokenState : CodecState → Prop
  | .headers _ => False
  | .requestBody _ url proto headers _ _ =>
    IsToken url ∧ IsToken proto ∧ ∀ header ∈ headers, Tabled header
  | .responseBody proto _ headers _ _ =>
    IsToken proto ∧ '/' ∈ proto ∧ ∀ header ∈ headers, Tabled header

theorem tokens_of_parts {line p0 p1 p2 : RtspString}
    (h : parseRequestLineParts line = some (p0, p1, p2)) :
    IsToken p0 ∧ IsToken p1 ∧ IsToken p2 := by
  unfold parseRequestLineParts at h
  simp only [Option.bind_eq_bind, Option.bind_eq_some_iff, Prod.exists, Option.pure_def,
    Option.some.injEq, Prod.mk.injEq] at h
  obtain ⟨a, rest, ha, b, rest', hb, c, rest'', hc, rfl, rfl, rfl⟩ := h
  exact ⟨isToken_of_parseToken ha, isToken_of_parseToken hb, isToken_of_parseToken hc⟩

theorem tokenState_of_parse {bytes : List UInt8}
    (h : parseHeaderBlock bytes = .ok next) : TokenState next := by
  unfold parseHeaderBlock at h
  split at h
  · cases h
  · split at h
    · cases h
    · split at h
      · cases h
      · split at h
        · cases h
        · rename_i hparts
          obtain ⟨h0, h1, h2⟩ := tokens_of_parts hparts
          obtain ⟨headers, hheaders, h⟩ := bind_ok h
          obtain ⟨length, -, h⟩ := bind_ok h
          have htabled := tabled_of_parseHeaders hheaders fun _ hmem => absurd hmem List.not_mem_nil
          unfold bodyState at h
          simp only at h
          split at h
          · split at h
            · cases h
            · obtain rfl := Except.ok.inj h
              exact ⟨h0, ‹_›, htabled⟩
          · obtain rfl := Except.ok.inj h
            exact ⟨h1, h2, htabled⟩

/-- What the decoder reads has tokens in its first line, and tabled names. -/
def TokenFrame : RtspFrame → Prop
  | .request request =>
    IsToken request.url ∧ IsToken request.proto ∧ ∀ header ∈ request.headers, Tabled header
  | .response response =>
    IsToken response.proto ∧ '/' ∈ response.proto ∧ ∀ header ∈ response.headers, Tabled header

theorem tokenFrame_of_body {state : CodecState}
    (h : TokenState next) (hbody : bodyOutcome next src = .item frame state rest) :
    TokenFrame frame := by
  cases next with
  | headers scanned => exact h.elim
  | requestBody method url proto headers length cseq =>
    simp only [bodyOutcome, frameOf] at hbody
    split at hbody
    · cases hbody
    · cases hbody
      exact h
  | responseBody proto status headers length cseq =>
    simp only [bodyOutcome, frameOf] at hbody
    split at hbody
    · cases hbody
    · cases hbody
      exact h

theorem tokenFrame_of_decode
    (h : decode (.headers 0) src = (.ok (some frame), next, rest)) : TokenFrame frame := by
  have hitem := outcome_eq_item.mpr h
  have hsrc : src ≠ [] := by
    rintro rfl
    cases hitem
  rw [outcome_headers 0 hsrc] at hitem
  split at hitem
  · split at hitem <;> cases hitem
  · split at hitem
    · cases hitem
    · exact tokenFrame_of_body (tokenState_of_parse ‹_›) hitem

/-- A response with an unknown status has no third token: it is refused. -/
theorem unknown_refused {response : RtspResponse} (h : WithinLimits (.response response))
    (hproto : IsToken response.proto) {code : UInt16} (hstatus : response.status = .unknown code) :
    outcome (.headers 0) (encode (.response response)) =
      .error (.protocolViolation "request line too short") := by
  have hreason : response.status.reasonPhrase = [] := by
    rw [hstatus]
    rfl
  have hline : '\r' ∉ firstLine (.response response) := by
    refine firstLine_no_break h (fun _ heq => by cases heq) (fun _ heq => ?_)
    cases heq
    rw [hreason]
    exact ⟨hproto, List.not_mem_nil⟩
  have htokens : parseRequestLineParts (firstLine (.response response)) = none := by
    rw [firstLine, parseRequestLineParts_eq hproto (isToken_asCodeStr _), hreason]
    rfl
  rw [encode_eq, outcome_head hline (sent_clean h) h.head,
    parseHeaderBlock_head hline (sent_clean h), if_neg (Nat.not_lt.mpr h.line), htokens]

/-- The kept headers of a frame that was read are tabled, so they read back. -/
theorem readable_of_tabled {read kept : Headers}
    (h : ∀ header ∈ read, Tabled header) (hkept : read.fixDynamicHeaders = kept) :
    ∀ header ∈ kept, Readable header := by
  rintro header hmem
  rw [← hkept] at hmem
  unfold Headers.fixDynamicHeaders at hmem
  exact (h header (List.mem_of_mem_filter (List.mem_of_mem_filter hmem))).readable

theorem readable_of_roundTrips (h : WithinLimits frame)
    (hround : RoundTrips frame) : ReadableFrame frame := by
  obtain ⟨read, hdecode, hsame⟩ := hround
  have htokens := tokenFrame_of_decode hdecode
  cases frame with
  | request request =>
    cases read with
    | response _ => exact hsame.elim
    | request read =>
      obtain ⟨-, hurl, hproto, hheaders, -, -⟩ := hsame
      obtain ⟨hurlToken, hprotoToken, htabled⟩ := htokens
      refine ⟨?_, ?_, readable_of_tabled htabled hheaders⟩
      · rw [← hurl]
        exact hurlToken.1
      · rw [← hproto]
        exact hprotoToken
  | response response =>
    cases read with
    | request _ => exact hsame.elim
    | response read =>
      obtain ⟨hproto, -, hheaders, -, -⟩ := hsame
      obtain ⟨hprotoToken, hslash, htabled⟩ := htokens
      rw [hproto] at hprotoToken hslash
      refine ⟨hprotoToken, hslash, fun code hstatus => ?_, readable_of_tabled htabled hheaders⟩
      have hrefused := unknown_refused h hprotoToken hstatus
      rw [outcome_eq_item.mpr hdecode] at hrefused
      cases hrefused

/-- **The round trip of a frame** within the limits of the codec: it reads back exactly when it is
readable. -/
theorem frame_roundTrip (frame : RtspFrame) (h : WithinLimits frame) :
    RoundTrips frame ↔ ReadableFrame frame := by
  constructor
  · exact readable_of_roundTrips h
  · intro hread
    have hdecode := decode_encode h hread []
    rw [List.append_nil] at hdecode
    exact ⟨asSent frame, hdecode, same_asSent frame⟩

/-- A name without a space does not hold the separator. -/
theorem CleanHeader.of_no_space
    (h : ' ' ∉ header.1.asStr ∧ '\r' ∉ header.1.asStr ∧ '\r' ∉ header.2) : CleanHeader header :=
  ⟨fun hpart => h.1 (hpart.subset (by decide)), h.2.1, h.2.2⟩

/-- The sizes of a frame, and headers without a separator or a line break. -/
def Sizes (frame : RtspFrame) : Prop :=
  RtspString.len (firstLine frame) ≤ Limits.requestLineSize ∧
    (sentHeaders frame).length ≤ Limits.headersCount ∧
    (∀ header ∈ keptHeaders frame,
      (' ' ∉ header.1.asStr ∧ '\r' ∉ header.1.asStr ∧ '\r' ∉ header.2) ∧
        RtspString.len header.1.asStr ≤ Limits.headerNameSize ∧
        RtspString.len header.2 ≤ Limits.headerValueSize) ∧
    (toUtf8 (headText (firstLine frame) (sentHeaders frame))).length ≤ Limits.headersSize ∧
    (payloadOf frame).length ≤ Limits.payloadSize

instance : DecidablePred Sizes := fun _ => inferInstanceAs (Decidable (_ ∧ _))

theorem Sizes.withinLimits (h : Sizes frame)
    (hurl : ∀ request, frame = .request request → ∀ c ∈ request.url, isAsciiWhitespace c = false) :
    WithinLimits frame where
  url := hurl
  clean header hmem := .of_no_space (h.2.2.1 header hmem).1
  line := h.1
  count := h.2.1
  name header hmem := (h.2.2.1 header hmem).2.1
  value header hmem := (h.2.2.1 header hmem).2.2
  head := h.2.2.2.1
  payload := h.2.2.2.2

def pairVerify : RtspFrame :=
  .request
    { method := .post, url := "/pair-verify".toList, proto := "RTSP/1.0".toList
      headers := [(.contentType, "application/octet-stream".toList),
        (.other "X-Apple-AbsoluteTime".toList, "1".toList), (.cseq, "9".toList)]
      payload := [1, 2, 3], cseq := some 7 }

def unknownStatus : RtspFrame :=
  .response
    { proto := "RTSP/1.0".toList, status := .unknown 299, headers := [], payload := []
      cseq := some 1 }

def homeKitPairing : RtspFrame :=
  .request
    { method := .post, url := "/pair-setup".toList, proto := "RTSP/1.0".toList
      headers := [(.homeKitPairing, "3".toList)], payload := [1], cseq := some 1 }

theorem sizes_samples : ∀ frame ∈ [pairVerify, unknownStatus, homeKitPairing], Sizes frame := by
  decide +kernel

/-- A request with a body and a header that no table knows. -/
theorem frame_roundTrip_pairVerify : RoundTrips pairVerify := by
  refine (frame_roundTrip pairVerify ((sizes_samples pairVerify (by simp)).withinLimits
    fun _ heq => by cases heq; exact no_whitespace_of_all (by decide))).mpr ?_
  refine ⟨by decide, ⟨by decide, no_whitespace_of_all (by decide)⟩, ?_⟩
  decide

/-- **A response with an unknown status is refused, and the header for the HomeKit pairing comes
back as another one.** -/
theorem frame_altered :
    (WithinLimits unknownStatus ∧ ¬ RoundTrips unknownStatus) ∧
      WithinLimits homeKitPairing ∧ ¬ RoundTrips homeKitPairing := by
  have hstatus : WithinLimits unknownStatus :=
    (sizes_samples unknownStatus (by simp)).withinLimits fun _ heq => by cases heq
  have hheader : WithinLimits homeKitPairing :=
    (sizes_samples homeKitPairing (by simp)).withinLimits fun _ heq => by
      cases heq
      exact no_whitespace_of_all (by decide)
  refine ⟨⟨hstatus, fun hround => ?_⟩, hheader, fun hround => ?_⟩
  · exact (readable_of_roundTrips hstatus hround).2.2.1 299 rfl
  · have hread := (readable_of_roundTrips hheader hround).2.2
      (.homeKitPairing, "3".toList) (by decide)
    exact absurd hread (by decide)

end Catplay.Analysis.Rtsp
