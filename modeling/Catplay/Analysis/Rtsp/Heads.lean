import Catplay.Analysis.Rtsp.Calls
import Mathlib.Data.List.TakeDrop
import Mathlib.Data.List.TakeWhile

/-!
# Reading a head that was written

The head of a frame is its first line, its header lines and a blank line. The codec finds the end
of a head, splits it into its lines, a line into its tokens and a header line into its name and
value, each where the encoder joined them.
-/

set_option autoImplicit false

namespace Catplay.Analysis.Rtsp

open Catplay.Model.Rtsp Catplay.Model.Rtsp.FrameCodec Catplay.Library.Text

/-! ## Numbers -/

theorem digit_of_isDigit {c : Char} (h : c.isDigit = true) : digit c = some (c.toNat - 48) :=
  if_pos h

/-- Reading digits is their value, if that fits. -/
theorem parseDigits_eq {max value : Nat} {s : RtspString} (hdigits : ∀ c ∈ s, c.isDigit = true)
    (hmax : Nat.ofDigitChars 10 s value ≤ max) :
    parseDigits max value s = some (Nat.ofDigitChars 10 s value) := by
  induction s generalizing value with
  | nil => rw [parseDigits, Nat.ofDigitChars_nil]
  | cons c s ih =>
    have hstep : Nat.ofDigitChars 10 (c :: s) value =
        Nat.ofDigitChars 10 s (value * 10 + (c.toNat - 48)) := by
      rw [Nat.ofDigitChars_cons, Nat.mul_comm]
      rfl
    rw [hstep] at hmax ⊢
    have hle : value * 10 + (c.toNat - 48) ≤ max := by
      refine Nat.le_trans ?_ hmax
      rw [Nat.ofDigitChars_eq_ofDigitChars_zero]
      exact Nat.le_trans (Nat.le_mul_of_pos_left _ (Nat.pow_pos (by decide)))
        (Nat.le_add_right _ _)
    have hc := digit_of_isDigit (hdigits c List.mem_cons_self)
    simp only [parseDigits, hc, if_pos hle]
    exact ih (fun d hd => hdigits d (List.mem_cons_of_mem c hd)) hmax

/-- **A number reads back.** -/
theorem parseUnsigned_decimal {max n : Nat} (h : n ≤ max) :
    parseUnsigned max (decimal n) = some n := by
  have hdigits : ∀ c ∈ decimal n, c.isDigit = true := fun c hc =>
    Nat.isDigit_of_mem_toDigits (by decide) (by decide) hc
  have hvalue : Nat.ofDigitChars 10 (decimal n) 0 = n := Nat.ofDigitChars_ten_toDigits
  have hparse := parseDigits_eq hdigits (hvalue.trans_le h)
  rw [hvalue] at hparse
  cases hs : decimal n with
  | nil => exact absurd hs Nat.toDigits_ne_nil
  | cons c s =>
    rw [hs] at hparse hdigits
    unfold parseUnsigned
    split
    · cases ‹c :: s = []›
    · rename_i heq
      obtain ⟨rfl, rfl⟩ := List.cons.inj heq
      exact absurd (hdigits '+' List.mem_cons_self) (by decide)
    · exact hparse

/-! ## Splitting -/

def crlf : RtspString := "\r\n".toList

/-- A line ends at its line break. -/
theorem splitAtPattern_crlf {line : RtspString} (h : '\r' ∉ line) (rest : RtspString) :
    splitAtPattern "\r\n".toList (line ++ (crlf ++ rest)) = some (line, crlf ++ rest) := by
  induction line with
  | nil => rfl
  | cons c line ih =>
    have hc : '\r' ≠ c := fun heq => h (heq ▸ List.mem_cons_self)
    have hnot : ("\r\n".toList).isPrefixOf (c :: (line ++ (crlf ++ rest))) = false := by
      show (('\r' == c) && _) = false
      rw [beq_eq_false_iff_ne.mpr hc, Bool.false_and]
    rw [List.cons_append, splitAtPattern, hnot, ih fun hmem => h (List.mem_cons_of_mem c hmem)]
    rfl

def separator : RtspString := [':', ' ']

/-- A header name ends at the separator, if it does not contain one. -/
theorem splitAtPattern_separator {name : RtspString} (h : ¬ separator <:+: name)
    (value : RtspString) :
    splitAtPattern ": ".toList (name ++ (separator ++ value)) =
      some (name, separator ++ value) := by
  have hpattern : ": ".toList = separator := rfl
  rw [hpattern]
  induction name with
  | nil => rfl
  | cons c name ih =>
    have hnot : separator.isPrefixOf (c :: (name ++ (separator ++ value))) = false := by
      rw [Bool.eq_false_iff, Ne, List.isPrefixOf_iff_prefix]
      intro hfront
      obtain ⟨hc, hrest⟩ := List.cons_prefix_cons.mp hfront
      cases name with
      | nil => exact absurd (List.cons_prefix_cons.mp hrest).1 (by decide)
      | cons d name =>
        have hd := (List.cons_prefix_cons.mp hrest).1
        exact h ⟨[], name, by rw [← hc, ← hd]; rfl⟩
    rw [List.cons_append, splitAtPattern, hnot, ih fun hpart => h (List.infix_cons hpart)]
    rfl

/-! ## Tokens -/

/-- A text that is one token. -/
def IsToken (s : RtspString) : Prop := s ≠ [] ∧ ∀ c ∈ s, isAsciiWhitespace c = false

/-- Whether a text is clean can be computed. -/
theorem no_whitespace_of_all {s : RtspString} (h : s.all (!isAsciiWhitespace ·) = true) :
    ∀ c ∈ s, isAsciiWhitespace c = false := by
  intro c hc
  simpa using List.all_eq_true.mp h c hc

theorem parseToken_space (line : RtspString) : parseToken (' ' :: line) = parseToken line := rfl

/-- A token in front of a space, or at the end of the line, is read. -/
theorem parseToken_token {token rest : RtspString} (h : IsToken token)
    (hrest : rest = [] ∨ ∃ line, rest = ' ' :: line) :
    parseToken (token ++ rest) = some (token, rest) := by
  obtain ⟨hne, hclean⟩ := h
  cases token with
  | nil => exact absurd rfl hne
  | cons c token =>
    have hc := hclean c List.mem_cons_self
    have hdrop : ((c :: token) ++ rest).dropWhile isAsciiWhitespace = (c :: token) ++ rest := by
      rw [List.cons_append, List.dropWhile_cons_of_neg (by rw [hc]; exact Bool.false_ne_true)]
    have htake : ((c :: token) ++ rest).takeWhile (fun d => !isAsciiWhitespace d) =
        c :: token := by
      rw [List.takeWhile_append_of_pos fun d hd => by rw [hclean d hd]; rfl]
      rcases hrest with rfl | ⟨line, rfl⟩
      · exact List.append_nil _
      · rw [List.takeWhile_cons_of_neg (by decide), List.append_nil]
    have hskip : ((c :: token) ++ rest).dropWhile (fun d => !isAsciiWhitespace d) = rest := by
      rw [List.dropWhile_append_of_pos fun d hd => by rw [hclean d hd]; rfl]
      rcases hrest with rfl | ⟨line, rfl⟩
      · rfl
      · rw [List.dropWhile_cons_of_neg (by decide)]
    unfold parseToken
    simp only [hdrop]
    rw [if_neg (by simp), List.span_eq_takeWhile_dropWhile, htake, hskip]

/-- The first line is read token by token. -/
theorem parseRequestLineParts_eq {p0 p1 : RtspString} (h0 : IsToken p0) (h1 : IsToken p1)
    (line : RtspString) :
    parseRequestLineParts (p0 ++ ' ' :: (p1 ++ ' ' :: line)) =
      (parseToken line).map fun (p2, _) => (p0, p1, p2) := by
  unfold parseRequestLineParts
  rw [parseToken_token h0 (Or.inr ⟨_, rfl⟩)]
  simp only [Option.bind_eq_bind, Option.bind_some]
  rw [parseToken_space, parseToken_token h1 (Or.inr ⟨_, rfl⟩)]
  simp only [Option.bind_some, parseToken_space]
  cases parseToken line <;> rfl

/-- What is read as a token is one. -/
theorem isToken_of_parseToken {line token rest : RtspString}
    (h : parseToken line = some (token, rest)) : IsToken token := by
  unfold parseToken at h
  simp only at h
  split at h
  · cases h
  · rename_i hne
    rw [List.span_eq_takeWhile_dropWhile] at h
    obtain ⟨rfl, -⟩ := Prod.mk.inj (Option.some.inj h)
    refine ⟨fun hempty => ?_, fun c hc => ?_⟩
    · cases hline : line.dropWhile isAsciiWhitespace with
      | nil => exact hne hline
      | cons c line' =>
        have hhead := List.head?_dropWhile_not isAsciiWhitespace line
        rw [hline] at hempty hhead
        simp only [List.head?_cons] at hhead
        rw [List.takeWhile_cons_of_pos (by simpa using hhead)] at hempty
        cases hempty
    · simpa using List.mem_takeWhile_imp hc

/-! ## Header lines -/

/-- A header that its line keeps: the name does not hold the separator, and no text ends the
line. -/
structure CleanHeader (header : HttpHeader × RtspString) : Prop where
  name : ¬ separator <:+: header.1.asStr
  nameLine : '\r' ∉ header.1.asStr
  valueLine : '\r' ∉ header.2

/-- A header line without its line break. -/
def headerText (header : HttpHeader × RtspString) : RtspString :=
  header.1.asStr ++ (separator ++ header.2)

def headerLines (headers : Headers) : RtspString :=
  headers.flatMap fun header => headerText header ++ crlf

/-- The header that is read for a header that was written. -/
def reread (header : HttpHeader × RtspString) : HttpHeader × RtspString :=
  (.fromStr header.1.asStr, header.2)

theorem CleanHeader.text {header : HttpHeader × RtspString} (h : CleanHeader header) :
    '\r' ∉ headerText header := by
  unfold headerText
  rw [List.mem_append, List.mem_append]
  rintro (hname | hseparator | hvalue)
  · exact h.nameLine hname
  · exact absurd hseparator (by decide)
  · exact h.valueLine hvalue

theorem headerText_ne_nil (header : HttpHeader × RtspString) : headerText header ≠ [] := by
  unfold headerText separator
  simp

theorem parseHeader_eq {header : HttpHeader × RtspString} (h : CleanHeader header) :
    parseHeader (headerText header) = .ok (reread header) := by
  unfold parseHeader headerText
  rw [splitAtPattern_separator h.name]
  rfl

theorem headerLines_cons (header : HttpHeader × RtspString) (headers : Headers) :
    headerLines (header :: headers) = headerText header ++ (crlf ++ headerLines headers) := by
  unfold headerLines
  rw [List.flatMap_cons, List.append_assoc]

theorem length_le_headerLines (headers : Headers) :
    headers.length ≤ (headerLines headers).length := by
  induction headers with
  | nil => exact Nat.zero_le _
  | cons header headers ih =>
    rw [headerLines_cons, List.length_append, List.length_append, List.length_cons]
    have hcrlf : crlf.length = 2 := rfl
    omega

/-- **The header lines are read one by one**, up to the blank line. -/
theorem parseHeaders_eq {headers : Headers} (h : ∀ header ∈ headers, CleanHeader header)
    {fuel : Nat} (hfuel : headers.length < fuel) (acc : Headers) :
    parseHeaders fuel (headerLines headers ++ crlf) acc = .ok (acc ++ headers.map reread) := by
  induction headers generalizing fuel acc with
  | nil =>
    obtain ⟨fuel, rfl⟩ := Nat.exists_eq_succ_of_ne_zero (Nat.ne_of_gt hfuel)
    rw [List.map_nil, List.append_nil]
    rfl
  | cons header headers ih =>
    obtain ⟨fuel, rfl⟩ := Nat.exists_eq_succ_of_ne_zero (Nat.ne_of_gt (Nat.lt_of_le_of_lt
      (Nat.zero_le _) hfuel))
    have hheader := h header List.mem_cons_self
    have hsplit := splitAtPattern_crlf hheader.text (headerLines headers ++ crlf)
    have hblock : headerLines (header :: headers) ++ crlf =
        headerText header ++ (crlf ++ (headerLines headers ++ crlf)) := by
      rw [headerLines_cons, List.append_assoc, List.append_assoc]
    have hrest : (crlf ++ (headerLines headers ++ crlf)).drop 2 = headerLines headers ++ crlf := rfl
    have hih := ih (fun other hmem => h other (List.mem_cons_of_mem header hmem))
      (Nat.lt_of_succ_lt_succ hfuel) (acc ++ [reread header])
    rw [hblock, parseHeaders]
    · simp only [hsplit, headerText_ne_nil, if_false, parseHeader_eq hheader, hrest, hih]
      rw [List.map_cons, List.append_assoc, List.singleton_append]
    · intro hnil
      exact headerText_ne_nil header (List.append_eq_nil_iff.mp hnil).1

/-! ## The head -/

/-- The text of the head of a frame. -/
def headText (line : RtspString) (headers : Headers) : RtspString :=
  line ++ (crlf ++ (headerLines headers ++ crlf))

theorem toUtf8_crlf : toUtf8 crlf = [13, 10] := by decide

/-- No byte of a text without a carriage return is one. -/
theorem ne_of_mem_toUtf8 {text : RtspString} (h : '\r' ∉ text) {b : UInt8}
    (hb : b ∈ toUtf8 text) : b ≠ 13 := by
  rintro rfl
  obtain ⟨c, hc, hval⟩ := mem_toUtf8 hb (by decide)
  have hchar : c = '\r' := Char.toNat_inj.mp (hval.trans (by decide))
  exact h (hchar ▸ hc)

theorem findTerminator_skip {front : List UInt8} (h : ∀ b ∈ front, b ≠ 13) (rest : List UInt8) :
    findTerminator (front ++ rest) = (findTerminator rest).map (· + front.length) := by
  induction front with
  | nil => simp
  | cons b front ih =>
    have hb := h b List.mem_cons_self
    have hwindow : (b :: (front ++ rest)).take 4 ≠ terminator := by
      rw [List.take_succ_cons]
      exact fun heq => hb (List.cons.inj heq).1
    rw [List.cons_append, findTerminator, if_neg hwindow,
      ih fun d hd => h d (List.mem_cons_of_mem b hd), Option.map_map]
    rfl

theorem findTerminator_break {b : UInt8} (hb : b ≠ 13) (rest : List UInt8) :
    findTerminator (13 :: 10 :: b :: rest) = (findTerminator (b :: rest)).map (· + 2) := by
  have hfirst : (13 :: 10 :: b :: rest).take 4 ≠ terminator := by
    intro heq
    have hthird := congrArg (·[2]?) heq
    simp [terminator] at hthird
    exact hb hthird
  have hsecond : (10 :: b :: rest).take 4 ≠ terminator := by
    intro heq
    have hhead := congrArg (·[0]?) heq
    simp [terminator] at hhead
  rw [findTerminator, if_neg hfirst, findTerminator, if_neg hsecond, Option.map_map]
  rfl

/-- The first blank line is the one behind the headers. -/
theorem findTerminator_lines {headers : Headers} (h : ∀ header ∈ headers, CleanHeader header)
    (body : List UInt8) :
    findTerminator ([13, 10] ++ (toUtf8 (headerLines headers) ++ ([13, 10] ++ body))) =
      some (toUtf8 (headerLines headers)).length := by
  induction headers with
  | nil => simp [headerLines, toUtf8, findTerminator, terminator]
  | cons header headers ih =>
    have hclean : ∀ b ∈ toUtf8 (headerText header), b ≠ 13 := fun b hb =>
      ne_of_mem_toUtf8 (h header List.mem_cons_self).text hb
    have hbytes : toUtf8 (headerLines (header :: headers)) ++ ([13, 10] ++ body) =
        toUtf8 (headerText header) ++
          ([13, 10] ++ (toUtf8 (headerLines headers) ++ ([13, 10] ++ body))) := by
      rw [headerLines_cons, toUtf8_append, toUtf8_append, toUtf8_crlf, List.append_assoc,
        List.append_assoc]
    have hih := ih fun other hmem => h other (List.mem_cons_of_mem header hmem)
    have hskip := findTerminator_skip hclean
      ([13, 10] ++ (toUtf8 (headerLines headers) ++ ([13, 10] ++ body)))
    rw [hih] at hskip
    have hlength : (toUtf8 (headerLines (header :: headers))).length =
        (toUtf8 (headerText header)).length + (2 + (toUtf8 (headerLines headers)).length) := by
      rw [headerLines_cons, toUtf8_append, toUtf8_append, toUtf8_crlf, List.length_append,
        List.length_append]
      rfl
    rw [hbytes, hlength]
    cases htext : toUtf8 (headerText header) with
    | nil => exact absurd htext (toUtf8_ne_nil (headerText_ne_nil header))
    | cons b front =>
      rw [htext] at hskip hclean
      have hbreak := findTerminator_break (hclean b List.mem_cons_self)
        (front ++ ([13, 10] ++ (toUtf8 (headerLines headers) ++ ([13, 10] ++ body))))
      rw [← List.cons_append, hskip] at hbreak
      refine hbreak.trans ?_
      simp only [Option.map_some, Option.some.injEq, List.length_cons]
      omega

variable {line : RtspString} {headers : Headers}

theorem toUtf8_headText (line : RtspString) (headers : Headers) :
    toUtf8 (headText line headers) =
      toUtf8 line ++ ([13, 10] ++ (toUtf8 (headerLines headers) ++ [13, 10])) := by
  rw [headText, toUtf8_append, toUtf8_append, toUtf8_append, toUtf8_crlf]

theorem findTerminator_head (hline : '\r' ∉ line)
    (hheaders : ∀ header ∈ headers, CleanHeader header) (body : List UInt8) :
    findTerminator (toUtf8 (headText line headers) ++ body) =
      some ((toUtf8 (headText line headers)).length - 4) := by
  have hskip := findTerminator_skip (fun b hb => ne_of_mem_toUtf8 hline hb)
    ([13, 10] ++ (toUtf8 (headerLines headers) ++ ([13, 10] ++ body)))
  rw [findTerminator_lines hheaders] at hskip
  rw [toUtf8_headText]
  simp only [List.append_assoc]
  rw [hskip]
  simp only [Option.map_some, Option.some.injEq, List.length_append, List.length_cons,
    List.length_nil]
  omega

/-- The codec finds the end of a head that fits into its window. -/
theorem findHttpRequestEnd_head (hline : '\r' ∉ line)
    (hheaders : ∀ header ∈ headers, CleanHeader header)
    (hsize : (toUtf8 (headText line headers)).length ≤ Limits.headersSize) (body : List UInt8) :
    findHttpRequestEnd (toUtf8 (headText line headers) ++ body) 0
        (min (toUtf8 (headText line headers) ++ body).length Limits.headersSize) =
      some (toUtf8 (headText line headers)).length := by
  obtain ⟨hwindow, hbefore⟩ := findTerminator_some (findTerminator_head hline hheaders body)
  have hfour : 4 ≤ (toUtf8 (headText line headers)).length := by
    rw [toUtf8_headText]
    simp only [List.length_append, List.length_cons, List.length_nil]
    omega
  refine findHttpRequestEnd_eq_some.mpr ⟨_, (Nat.sub_add_cancel hfour).symm, Nat.zero_le _, ?_,
    hwindow, fun j _ hj => hbefore j hj⟩
  rw [List.length_append]
  omega

/-- **A head that was written is read** by its first line and its headers. -/
theorem parseHeaderBlock_head (hline : '\r' ∉ line)
    (hheaders : ∀ header ∈ headers, CleanHeader header) :
    parseHeaderBlock (toUtf8 (headText line headers)) =
      if RtspString.len line > Limits.requestLineSize then .error .headersTooBig
      else
        match parseRequestLineParts line with
        | none => .error (.protocolViolation "request line too short")
        | some (p0, p1, p2) =>
          checkHeaders (headers.map reread) >>= bodyState p0 p1 p2 (headers.map reread) := by
  have hsplit : splitAtPattern "\r\n".toList (headText line headers) =
      some (line, crlf ++ (headerLines headers ++ crlf)) :=
    splitAtPattern_crlf hline _
  have hblock : (crlf ++ (headerLines headers ++ crlf)).drop 2 = headerLines headers ++ crlf := rfl
  have hfuel : headers.length < (crlf ++ (headerLines headers ++ crlf)).length := by
    have hle := length_le_headerLines headers
    have hcrlf : crlf.length = 2 := rfl
    rw [List.length_append, List.length_append]
    omega
  unfold parseHeaderBlock
  simp only [fromUtf8_toUtf8, hsplit, hblock, parseHeaders_eq hheaders hfuel, List.nil_append]
  all_goals rfl

/-- The decoder on a written head and a body. -/
theorem outcome_head (hline : '\r' ∉ line)
    (hheaders : ∀ header ∈ headers, CleanHeader header)
    (hsize : (toUtf8 (headText line headers)).length ≤ Limits.headersSize) (body : List UInt8) :
    outcome (.headers 0) (toUtf8 (headText line headers) ++ body) =
      match parseHeaderBlock (toUtf8 (headText line headers)) with
      | .error e => .error e
      | .ok next => bodyOutcome next body := by
  have hsrc : toUtf8 (headText line headers) ++ body ≠ [] := by
    rw [toUtf8_headText]
    simp
  have hstep := outcome_headers 0 hsrc
  rw [findHttpRequestEnd_head hline hheaders hsize] at hstep
  dsimp only at hstep
  rw [List.take_left, List.drop_left] at hstep
  exact hstep

end Catplay.Analysis.Rtsp
