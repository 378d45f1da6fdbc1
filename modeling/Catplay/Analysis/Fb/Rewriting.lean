import Catplay.Analysis.Fb.IdrRewriting

/-!
# The NAL rewriter preserves meaning

Both rewriters on whole NAL units. The output of `rewrite_sps` is parsed as the elements of its
input with the model and the VUI of CarPlay, that of `rewrite_idr` as the elements of its input
with `pic_order_cnt_lsb = 0`, in front of the same CABAC bytes. They do not panic, except on a
run of zeros that an `i32` cannot count and, in `rewrite_idr`, on a signed element of
`-2 ^ 31` (`rewriting_preserves_iff`).
-/

set_option autoImplicit false

namespace Catplay.Analysis.Fb

open Catplay.Library Catplay.Library.Checked
open Catplay.Library.BitString Catplay.Library.ExpGolomb
open Catplay.Model.Fb

/-! ## The frame around a rewrite -/

variable {nal data rbsp cabac : List UInt8} {l : List Bool} {crate : ExpGolomb} {n k : Nat}
  {s : IdrSyntax}

/-- Both rewriters take the unit apart in the same way. -/
theorem unit_meets {c : UInt8 → Prop} [DecidablePred c] {missing wrong : String}
    {f : Nat → UInt8 → List UInt8 → RewriteResult (List UInt8)} {P : List UInt8 → Prop}
    (hf : ∀ start header payload rbsp, IsNal nal start header payload → ¬c header →
      removeEmulationPrevention payload = .ok rbsp → Meets (f start.length header rbsp) P)
    (hrun : ∀ start header payload, IsNal nal start header payload → ¬c header →
      ¬ZeroRun payload) :
    Meets (do
      let prefixLen ← annexbPrefixLen nal
      let header ← orFail nal[prefixLen]? (.x264BitstreamRewrite missing)
      if c header then rewriteError wrong
      else
        let payload ← BitReader.sliceFrom nal (prefixLen + 1)
        let rbsp ← removeEmulationPrevention payload
        f prefixLen header rbsp) P := by
  cases hlen : annexbPrefixLen nal with
  | error stop =>
    have hstop : ∃ e, stop = .error e := by
      unfold annexbPrefixLen at hlen
      split at hlen
      · cases hlen
      · split at hlen
        · cases hlen
        · exact ⟨_, (Except.error.inj hlen).symm⟩
    obtain ⟨e, rfl⟩ := hstop
    trivial
  | ok n =>
    cases hheader : nal[n]? with
    | none =>
      show Meets (orFail nal[n]? _ >>= _) _
      rw [hheader]
      trivial
    | some header =>
      obtain ⟨hnal, hn⟩ := isNal_of_prefixLen hlen hheader
      have hpayload : BitReader.sliceFrom nal (n + 1) = .ok (nal.drop (n + 1)) := by
        have hlt : n < nal.length := (List.getElem?_eq_some_iff.mp hheader).1
        unfold BitReader.sliceFrom slice
        rw [if_pos ⟨by omega, Nat.le_refl _⟩, List.take_of_length_le (by rw [List.length_drop])]
      show Meets (orFail nal[n]? _ >>= _) _
      rw [hheader]
      show Meets (if c header then _ else _) _
      apply meets_ite
      · intro _
        trivial
      · intro hc
        rw [hpayload]
        show Meets (removeEmulationPrevention (nal.drop (n + 1)) >>= _) _
        cases remove_cases (nal.drop (n + 1)) with
        | inl h =>
          obtain ⟨⟨rbsp, hrbsp⟩, -⟩ := h
          rw [hrbsp]
          have hmeets := hf _ header _ rbsp hnal hc hrbsp
          rw [hn] at hmeets
          exact hmeets
        | inr h => exact absurd h.2 (hrun _ header _ hnal hc)

/-- On a run of zeros that is too long both panic. -/
theorem unit_panics {start : List UInt8} {header : UInt8} {payload : List UInt8}
    {c : UInt8 → Prop} [DecidablePred c] {missing wrong : String}
    {f : Nat → UInt8 → List UInt8 → RewriteResult (List UInt8)}
    (hnal : IsNal nal start header payload) (hc : ¬c header)
    (hpanic : removeEmulationPrevention payload = .error .panic ∨
      ∃ rbsp, removeEmulationPrevention payload = .ok rbsp ∧
        f start.length header rbsp = .error .panic) :
    (do
      let prefixLen ← annexbPrefixLen nal
      let header ← orFail nal[prefixLen]? (.x264BitstreamRewrite missing)
      if c header then rewriteError wrong
      else
        let payload ← BitReader.sliceFrom nal (prefixLen + 1)
        let rbsp ← removeEmulationPrevention payload
        f prefixLen header rbsp : RewriteResult (List UInt8)) = .error .panic := by
  have hheader : nal[start.length]? = some header := by
    rw [hnal.bytes, List.getElem?_append_right (Nat.le_refl _), Nat.sub_self]
    rfl
  have hpayload : BitReader.sliceFrom nal (start.length + 1) = .ok payload := by
    have hsplit : nal = (start ++ [header]) ++ (payload ++ []) := by
      rw [hnal.bytes]
      simp
    unfold BitReader.sliceFrom
    rw [hsplit]
    exact slice_append _ _ _ (by simp) (by simp; omega)
  rw [annexbPrefixLen_ok hnal]
  show (orFail nal[start.length]? _ >>= fun header => _) = _
  rw [hheader]
  show (if c header then _ else _) = _
  rw [if_neg hc, hpayload]
  show (removeEmulationPrevention payload >>= _) = _
  rcases hpanic with h | ⟨rbsp, h, hf⟩
  · rw [h]
    rfl
  · rw [h]
    exact hf

/-! ## Sequence parameter sets -/

/-- The input is an SPS with these elements. -/
def IsSps (nal start : List UInt8) (header : UInt8) (f : SpsSyntax) : Prop :=
  ∃ payload rbsp, IsNal nal start header payload ∧ header &&& 0x1f = 7 ∧
    removeEmulationPrevention payload = .ok rbsp ∧ f.profile.Fits ∧ f.frame.Fits ∧
    f.bits sourceModel <+: bits rbsp

/-- `rewrite_sps` does not panic, and what it gives is parsed as the elements of its input with
the model and the VUI of CarPlay. -/
def SpsPreserved (crate : ExpGolomb) (nal : List UInt8) : Prop :=
  Meets (rewriteSps crate nal) fun out => ∃ start header f, IsSps nal start header f ∧
    SpsSemantics.parse crate out = .ok f.semantics

/-- An SPS with a run of zeros that is too long. -/
def SpsOverflows (nal : List UInt8) : Prop :=
  ∃ start header payload, IsNal nal start header payload ∧ header &&& 0x1f = 7 ∧ ZeroRun payload

/-- A parser that has to end at a position ends there. -/
theorem parse_to_end {α : Type} {x : Read α} {a : α} (hx : Accepts x l a)
    (hdata : l <+: bits data) (reason : String) :
    (do
      let (a, reader) ← x ⟨data, 0⟩
      if reader.pos ≠ l.length then rewriteError reason else .ok a : RewriteResult α) = .ok a := by
  rw [hx ⟨data, 0⟩ hdata]
  have hpos : ¬(advance ⟨data, 0⟩ l.length).pos ≠ l.length := by
    rw [not_not]
    exact Nat.zero_add _
  exact if_neg hpos

theorem spsSemantics_parse (hc : CodesAsH264 crate) {f : SpsSyntax}
    (hrbsp : semanticsRbsp nal 7 = .ok data) (hp : f.profile.Fits) (hf : f.frame.Fits) (hn : n < 8)
    (hbits : bits data = (f.bits targetModel ++ carplayVuiBits) ++ true :: List.replicate n false) :
    SpsSemantics.parse crate nal = .ok f.semantics := by
  have hprefix : f.bits targetModel ++ carplayVuiBits <+: bits data := by
    rw [hbits]
    exact List.prefix_append _ _
  have hparse := parse_to_end (accepts_sps hc hp hf) hprefix "unparsed SPS data"
  rw [← hparse]
  unfold SpsSemantics.parse
  rw [hrbsp]
  show (rbspDataBitLen data >>= fun dataEnd => _) = _
  rw [rbspDataBitLen_ok hn hbits]
  rfl

theorem spsPreserved_iff (hc : CodesAsH264 crate) (nal : List UInt8) :
    SpsPreserved crate nal ↔ ¬SpsOverflows nal := by
  constructor
  · rintro h ⟨start, header, payload, hnal, htype, hrun⟩
    have hremove : removeEmulationPrevention payload = .error .panic := by
      cases remove_cases payload with
      | inl h => exact absurd hrun h.2
      | inr h => exact h.1
    have hpanic : rewriteSps crate nal = .error .panic :=
      unit_panics (c := fun header => header &&& 0x1f ≠ 7) hnal (not_not.mpr htype) (.inl hremove)
    unfold SpsPreserved at h
    rw [hpanic] at h
    exact h
  · intro hover
    refine unit_meets (c := fun header => header &&& 0x1f ≠ 7) ?_ ?_
    · intro start header payload rbsp hnal htype hremove
      rw [not_not] at htype
      apply (rewriteSpsBits_meets hc rbsp).bind
      rintro ⟨_, streams⟩ ⟨f, hp, hf, hprefix, n, hn, hbits⟩
      exact ⟨start, header, f, ⟨payload, rbsp, hnal, htype, hremove, hp, hf, hprefix⟩,
        spsSemantics_parse hc (semanticsRbsp_rebuildNal hnal htype _) hp hf hn hbits⟩
    · intro start header payload hnal htype hrun
      exact hover ⟨start, header, payload, hnal, not_not.mp htype, hrun⟩

/-! ## IDR slices -/

/-- Where a header, its alignment and the bytes behind it are. -/
structure Laid (data : List UInt8) (l : List Bool) (k : Nat) (cabac : List UInt8) : Prop where
  short : k < 8
  aligned : (l.length + k) % 8 = 0
  bits : bits data = l ++ List.replicate k true ++ bits cabac

/-- The unit is a slice of a reference IDR picture: its header has the bits `l`, and ones up to
a byte boundary stand before the bytes `cabac`. -/
def IsIdr (nal start : List UInt8) (header : UInt8) (l : List Bool) (cabac : List UInt8) : Prop :=
  ∃ payload rbsp k, IsNal nal start header payload ∧ header &&& 0x1f = 5 ∧ header >>> 5 ≠ 0 ∧
    removeEmulationPrevention payload = .ok rbsp ∧ Laid rbsp l k cabac

/-- `rewrite_idr` does not panic, and what it gives is parsed as the elements of its input with
`pic_order_cnt_lsb = 0`, in front of the same CABAC bytes. -/
def IdrPreserved (crate : ExpGolomb) (nal : List UInt8) : Prop :=
  Meets (rewriteIdr crate nal) fun out => ∃ start header, ∃ s : IdrSyntax, ∃ cabac, s.Fits ∧
    IsIdr nal start header s.sourceBits cabac ∧ IsIdr out start header s.targetBits cabac ∧
    IdrSemantics.parse crate out = .ok (s.semantics (!cabac.isEmpty))

/-- A slice with a run of zeros that is too long, or with a signed element of `-2 ^ 31`. -/
def IdrOverflows (nal : List UInt8) : Prop :=
  (∃ start header payload, IsNal nal start header payload ∧ header &&& 0x1f = 5 ∧
    header >>> 5 ≠ 0 ∧ ZeroRun payload) ∨
  ∃ start header, ∃ s : IdrSyntax, ∃ cabac, s.Fits ∧ s.HasMin ∧ IsIdr nal start header s.sourceBits cabac

/-- The bytes behind a header and its alignment. -/
theorem bits_split (hl : l <+: bits rbsp)
    (hk : List.replicate k true <+: (bits rbsp).drop l.length) (hto : (l.length + k) % 8 = 0) :
    bits rbsp = l ++ List.replicate k true ++ bits (rbsp.drop ((l.length + k) / 8)) ∧
      (l.length + k) / 8 ≤ rbsp.length := by
  obtain ⟨t, ht⟩ := hl
  rw [← ht, List.drop_left] at hk
  obtain ⟨u, hu⟩ := hk
  have hall : bits rbsp = (l ++ List.replicate k true) ++ u := by
    rw [List.append_assoc, hu, ht]
  have hlen : (l ++ List.replicate k true).length = l.length + k := by
    rw [List.length_append, List.length_replicate]
  have hcount := congrArg List.length hall
  rw [length_bits, List.length_append, hlen] at hcount
  have height : 8 * ((l.length + k) / 8) = l.length + k := by omega
  refine ⟨?_, by omega⟩
  rw [bits_drop, height, hall, ← hlen, List.drop_left]

theorem Laid.header (h : Laid data l k cabac) : l <+: rest ⟨data, 0⟩ := by
  show _ <+: (BitString.bits data).drop 0
  rw [h.bits, List.append_assoc]
  exact List.prefix_append _ _

theorem Laid.align (h : Laid data l k cabac) :
    BitReader.alignOne 7 (advance ⟨data, 0⟩ l.length) = .ok ((), ⟨data, l.length + k⟩) := by
  have hpos : (advance ⟨data, 0⟩ l.length).pos = l.length := Nat.zero_add _
  have hones : List.replicate k true <+: rest (advance ⟨data, 0⟩ l.length) := by
    rw [rest_advance]
    show _ <+: ((BitString.bits data).drop 0).drop _
    rw [List.drop_zero, h.bits, List.append_assoc, List.drop_left]
    exact List.prefix_append _ _
  have hk := h.short
  rw [alignOne_ok 7 (by omega) hk (by rw [hpos]; exact h.aligned) hones, advance_advance]
  show Except.ok ((), (⟨data, 0 + (l.length + k)⟩ : BitReader)) = _
  rw [Nat.zero_add]

/-- There are bytes behind the alignment if and only if there is a payload. -/
theorem Laid.present
    (h : Laid data l k cabac) : decide ((l.length + k) / 8 < data.length) = !cabac.isEmpty := by
  have hcount := congrArg List.length h.bits
  have haligned := h.aligned
  rw [length_bits, List.length_append, List.length_append, List.length_replicate,
    length_bits] at hcount
  cases cabac with
  | nil =>
    rw [List.length_nil] at hcount
    exact decide_eq_false (by omega)
  | cons b cabac =>
    rw [List.length_cons] at hcount
    exact decide_eq_true (by omega)

theorem parse_laid {α : Type} {x : Read (Bool → α)} {f : Bool → α}
    (hx : Accepts x l f) (h : Laid data l k cabac) :
    (do
      let (idr, reader) ← x ⟨data, 0⟩
      let (_, reader) ← BitReader.alignOne 7 reader
      .ok (idr (reader.pos / 8 < data.length)) : RewriteResult α) =
      .ok (f (!cabac.isEmpty)) := by
  rw [hx ⟨data, 0⟩ h.header]
  show (BitReader.alignOne 7 (advance ⟨data, 0⟩ l.length) >>= fun out => _) = _
  rw [h.align, ← h.present]
  rfl

theorem idrSemantics_parse (hc : CodesAsH264 crate) (hs : s.Fits)
    (hrbsp : semanticsRbsp nal 5 = .ok data) (h : Laid data s.targetBits k cabac) :
    IdrSemantics.parse crate nal = .ok (s.semantics (!cabac.isEmpty)) := by
  rw [← parse_laid (accepts_idrSemantics hc hs) h]
  unfold IdrSemantics.parse
  rw [hrbsp]
  rfl

/-- What is written behind a header that was read. -/
theorem writeIdr_ok (hc : CodesAsH264 crate) (hs : s.Fits)
    (hmin : ¬s.HasMin) : ∃ w w', writeIdrHeader crate s.header BitWriter.new = .ok ((), w) ∧
      BitWriter.alignOne w = .ok ((), w') ∧
      bits w'.data = s.targetBits ++ List.replicate (padding s.targetBits.length) true := by
  obtain ⟨w, hw, hold⟩ := writes_idrHeader hc hs hmin BitWriter.new [] holds_new
  rw [List.nil_append] at hold
  have hfuel : padding s.targetBits.length ≤ 7 := by
    unfold padding
    omega
  obtain ⟨w', hw', hold'⟩ := writes_alignWith true 7 hold hfuel
  exact ⟨w, w', hw, hw', hold'.bits_eq (length_align _ _)⟩

/-- What the reader does on a laid out RBSP, and what follows it. -/
theorem rewriteIdrRbsp_eq (hc : CodesAsH264 crate) {header : UInt8} (hs : s.Fits)
    (h : Laid rbsp s.sourceBits k cabac) :
    rewriteIdrRbsp crate nal n header rbsp = (do
      let (_, writer) ← writeIdrHeader crate s.header BitWriter.new
      let (_, writer) ← BitWriter.alignOne writer
      let cabac ← BitReader.sliceFrom rbsp ((s.sourceBits.length + k) / 8)
      .ok (rebuildNal nal n header (writer.data ++ cabac))) := by
  unfold rewriteIdrRbsp
  rw [accepts_idrHeader hc hs ⟨rbsp, 0⟩ h.header, ok_bind]
  dsimp only
  rw [h.align, ok_bind]

/-- Either the header is turned down or the RBSP is laid out. -/
theorem rewriteIdrRbsp_cases (hc : CodesAsH264 crate) (nal rbsp : List UInt8)
    (n : Nat) (header : UInt8) :
    (∃ e, rewriteIdrRbsp crate nal n header rbsp = .error (.error e)) ∨
      ∃ s k, IdrSyntax.Fits s ∧ (s.sourceBits.length + k) / 8 ≤ rbsp.length ∧
        Laid rbsp s.sourceBits k (rbsp.drop ((s.sourceBits.length + k) / 8)) := by
  unfold rewriteIdrRbsp
  have hread := (reads_idrHeader hc ⟨rbsp, 0⟩ (Nat.zero_le _)).ends
  generalize readIdrHeader crate ⟨rbsp, 0⟩ = read at hread ⊢
  rcases hread with ⟨⟨_, reader⟩, rfl, l, hl, hreader, s, hs, -, hbits⟩ | ⟨e, rfl⟩
  · obtain rfl : reader = advance ⟨rbsp, 0⟩ l.length := hreader
    have hpos : (advance ⟨rbsp, 0⟩ l.length).pos = l.length := Nat.zero_add _
    have hin := pos_le_of_prefix (r := ⟨rbsp, 0⟩) (Nat.zero_le _) hl
    have halign := (alignOne_meets (r := advance ⟨rbsp, 0⟩ l.length) 7 hin (by omega)).ends
    rw [ok_bind]
    dsimp only
    generalize BitReader.alignOne 7 (advance ⟨rbsp, 0⟩ l.length) = aligned at halign ⊢
    rcases halign with ⟨_, -, k, hk, hto, hones, -⟩ | ⟨e, rfl⟩
    · rw [hpos] at hto
      rw [rest_advance] at hones
      obtain ⟨hsplit, hinside⟩ := bits_split hl hones hto
      rw [hbits] at hsplit hinside hto
      exact .inr ⟨s, k, hs, hinside, hk, hto, hsplit⟩
    · exact .inl ⟨e, rfl⟩
  · exact .inl ⟨e, rfl⟩

theorem rewriteIdrRbsp_ok (hc : CodesAsH264 crate) (nal : List UInt8) (n : Nat) (header : UInt8)
    (hs : s.Fits) (hmin : ¬s.HasMin) (hinside : (s.sourceBits.length + k) / 8 ≤ rbsp.length)
    (h : Laid rbsp s.sourceBits k (rbsp.drop ((s.sourceBits.length + k) / 8))) :
    ∃ data m, rewriteIdrRbsp crate nal n header rbsp = .ok (rebuildNal nal n header data) ∧
      Laid data s.targetBits m (rbsp.drop ((s.sourceBits.length + k) / 8)) := by
  obtain ⟨w, w', hw, hw', hdata⟩ := writeIdr_ok hc hs hmin
  have hcabac : BitReader.sliceFrom rbsp ((s.sourceBits.length + k) / 8) =
      .ok (rbsp.drop ((s.sourceBits.length + k) / 8)) := by
    unfold BitReader.sliceFrom slice
    rw [if_pos ⟨hinside, Nat.le_refl _⟩, List.take_of_length_le (by rw [List.length_drop])]
  refine ⟨w'.data ++ rbsp.drop ((s.sourceBits.length + k) / 8), padding s.targetBits.length,
    ?_, Nat.mod_lt _ (by omega), ?_, by rw [bits_append, hdata]⟩
  · rw [rewriteIdrRbsp_eq hc hs h, hw, ok_bind]
    dsimp only
    rw [hw', ok_bind, hcabac, ok_bind]
  · unfold padding
    omega

theorem rewriteIdrRbsp_meets (hc : CodesAsH264 crate) {start : List UInt8} {header : UInt8}
    {payload : List UInt8} (hnal : IsNal nal start header payload) (htype : header &&& 0x1f = 5)
    (href : header >>> 5 ≠ 0) (hremove : removeEmulationPrevention payload = .ok rbsp)
    (hover : ¬IdrOverflows nal) :
    Meets (rewriteIdrRbsp crate nal start.length header rbsp) fun out =>
      ∃ start header, ∃ s : IdrSyntax, ∃ cabac, s.Fits ∧
        IsIdr nal start header s.sourceBits cabac ∧ IsIdr out start header s.targetBits cabac ∧
        IdrSemantics.parse crate out = .ok (s.semantics (!cabac.isEmpty)) := by
  rcases rewriteIdrRbsp_cases hc nal rbsp start.length header with
    ⟨e, herror⟩ | ⟨s, k, hs, hinside, hlaid⟩
  · rw [herror]
    trivial
  · have hsource : IsIdr nal start header s.sourceBits
        (rbsp.drop ((s.sourceBits.length + k) / 8)) :=
      ⟨payload, rbsp, k, hnal, htype, href, hremove, hlaid⟩
    have hmin : ¬s.HasMin := fun hmin => hover (.inr ⟨start, header, s, _, hs, hmin, hsource⟩)
    obtain ⟨data, m, hok, htarget⟩ :=
      rewriteIdrRbsp_ok hc nal start.length header hs hmin hinside hlaid
    have hrbsp := semanticsRbsp_rebuildNal hnal htype data
    have hbuilt : IsIdr (rebuildNal nal start.length header data) start header s.targetBits
        (rbsp.drop ((s.sourceBits.length + k) / 8)) := by
      refine ⟨addEmulationPrevention data, data, m, ⟨hnal.startCode, ?_⟩, htype, href,
        remove_add data, htarget⟩
      unfold rebuildNal
      rw [hnal.bytes, List.take_left, List.append_assoc]
      rfl
    rw [hok]
    exact ⟨start, header, s, _, hs, hsource, hbuilt, idrSemantics_parse hc hs hrbsp htarget⟩

theorem rewriteIdrRbsp_panics (hc : CodesAsH264 crate) {header : UInt8} (hs : s.Fits)
    (hmin : s.HasMin) (h : Laid rbsp s.sourceBits k cabac) :
    rewriteIdrRbsp crate nal n header rbsp = .error .panic := by
  rw [rewriteIdrRbsp_eq hc hs h, writeIdrHeader_panics hc hs hmin BitWriter.new [] holds_new,
    error_bind]

/-- The header bytes that `rewrite_idr` turns down. -/
def NotIdr (header : UInt8) : Prop := header &&& 0x1f ≠ 5 ∨ header >>> 5 = 0

instance : DecidablePred NotIdr := fun header =>
  inferInstanceAs (Decidable (header &&& 0x1f ≠ 5 ∨ header >>> 5 = 0))

theorem not_notIdr {header : UInt8} : ¬NotIdr header ↔ header &&& 0x1f = 5 ∧ header >>> 5 ≠ 0 := by
  unfold NotIdr
  rw [not_or, not_not]

theorem idrPreserved_iff (hc : CodesAsH264 crate) (nal : List UInt8) :
    IdrPreserved crate nal ↔ ¬IdrOverflows nal := by
  constructor
  · intro h hover
    have hpanic : rewriteIdr crate nal = .error .panic := by
      rcases hover with ⟨start, header, payload, hnal, htype, href, hrun⟩ |
        ⟨start, header, s, cabac, hs, hmin, payload, rbsp, k, hnal, htype, href, hremove, hlaid⟩
      · have hremove : removeEmulationPrevention payload = .error .panic := by
          cases remove_cases payload with
          | inl h => exact absurd hrun h.2
          | inr h => exact h.1
        exact unit_panics (c := NotIdr) (f := rewriteIdrRbsp crate nal) hnal
          (not_notIdr.mpr ⟨htype, href⟩) (.inl hremove)
      · exact unit_panics (c := NotIdr) (f := rewriteIdrRbsp crate nal) hnal
          (not_notIdr.mpr ⟨htype, href⟩)
          (.inr ⟨rbsp, hremove, rewriteIdrRbsp_panics hc hs hmin hlaid⟩)
    unfold IdrPreserved at h
    rw [hpanic] at h
    exact h
  · intro hover
    refine unit_meets (c := NotIdr) (f := rewriteIdrRbsp crate nal) ?_ ?_
    · intro start header payload rbsp hnal htype hremove
      obtain ⟨htype, href⟩ := not_notIdr.mp htype
      exact rewriteIdrRbsp_meets hc hnal htype href hremove hover
    · intro start header payload hnal htype hrun
      obtain ⟨htype, href⟩ := not_notIdr.mp htype
      exact hover (.inl ⟨start, header, payload, hnal, htype, href, hrun⟩)

/-! ## A crate that codes as H.264 defines -/

/-- The bits of `l` in `n` bytes. -/
def pack (n : Nat) (l : List Bool) : List UInt8 :=
  (List.range n).map fun i => UInt8.ofNat (ofBits ((l.drop (8 * i)).take 8))

theorem bits_pack (n : Nat) (hl : 8 * n ≤ l.length) :
    bits (pack n l) = l.take (8 * n) := by
  induction n with
  | zero => rfl
  | succ n ih =>
    have hchunk : ((l.drop (8 * n)).take 8).length = 8 := by
      rw [List.length_take, List.length_drop]
      omega
    have hlt := ofBits_lt ((l.drop (8 * n)).take 8)
    rw [hchunk] at hlt
    have hbyte : natBits 8 (UInt8.ofNat (ofBits ((l.drop (8 * n)).take 8))).toNat =
        (l.drop (8 * n)).take 8 := by
      have hchunkBits := natBits_ofBits ((l.drop (8 * n)).take 8)
      rw [hchunk] at hchunkBits
      rw [UInt8.toNat_ofNat', Nat.mod_eq_of_lt hlt, hchunkBits]
    have hstep : pack (n + 1) l =
        pack n l ++ [UInt8.ofNat (ofBits ((l.drop (8 * n)).take 8))] := by
      unfold pack
      rw [List.range_succ, List.map_append]
      rfl
    rw [hstep, bits_append, ih (by omega), bits_cons, hbyte, bits_nil, List.append_nil,
      show 8 * (n + 1) = 8 * n + 8 by omega, List.take_add]

/-- A decoder is the bits that are left, an encoder the buffer and the bits put so far. -/
def reference : ExpGolomb where
  Decoder := List Bool
  Encoder := List UInt8 × List Bool
  newDecoder data start := if data = [] ∨ 8 ≤ start then none else some ((bits data).drop start)
  nextUnsigned d := (decodeUe d).filter (· < 2 ^ 64 - 1)
  nextSigned d := ((decodeUe d).filter (· < 2 ^ 64 - 1)).map seValue
  newEncoder buffer start :=
    if buffer = [] ∨ 8 ≤ start then none else some (buffer, (bits buffer).take start)
  putUnsigned e v :=
    if e.2.length + (ueCode v).length ≤ 8 * e.1.length then some (e.1, e.2 ++ ueCode v) else none
  close e := (pack e.1.length (e.2 ++ (bits e.1).drop e.2.length), e.2.length / 8, e.2.length % 8)

theorem decoder_eq {start : Nat} {d : List Bool}
    (h : reference.newDecoder data start = some d) : d = (bits data).drop start := by
  unfold reference at h
  dsimp only at h
  split at h
  · cases h
  · exact (Option.some.inj h).symm

theorem reference_codes : CodesAsH264 reference where
  newDecoder data start hdata hstart :=
    ⟨(bits data).drop start, if_neg fun h => h.elim hdata fun h => by omega⟩
  nextUnsigned data start d hd v hv := by
    have hbits := decoder_eq hd
    subst hbits
    rw [← decodeUe_eq_some]
    show (decodeUe ((bits data).drop start)).filter _ = some v ↔ _
    rw [Option.filter_eq_some_iff]
    exact ⟨fun h => h.1, fun h => ⟨h, by simpa using (show v < 2 ^ 64 - 1 by omega)⟩⟩
  nextSigned data start d hd k hlo hhi := by
    have hnum : seNum k < 2 ^ 64 - 1 := by
      rw [← seNum_eq]
      split <;> omega
    have hbits := decoder_eq hd
    subst hbits
    show ((decodeUe ((bits data).drop start)).filter _).map seValue = some k ↔
      ueCode (seNum k) <+: (bits data).drop start
    rw [← decodeUe_eq_some, Option.map_eq_some_iff]
    constructor
    · rintro ⟨n, hn, rfl⟩
      rw [Option.filter_eq_some_iff] at hn
      rw [seNum_seValue]
      exact hn.1
    · intro h
      refine ⟨seNum k, Option.filter_eq_some_iff.mpr ⟨h, by simpa using hnum⟩, seValue_seNum k⟩
  signedRange d k hk := by
    obtain ⟨n, hn, rfl⟩ := Option.map_eq_some_iff.mp hk
    rw [Option.filter_eq_some_iff] at hn
    have hlt : n < 2 ^ 64 - 1 := by simpa using hn.2
    unfold seValue
    split <;> omega
  encode n v hfit hn := by
    have hbuffer : List.replicate n (0 : UInt8) ≠ [] := by
      intro h
      have hlen := congrArg List.length h
      rw [List.length_replicate, List.length_nil] at hlen
      omega
    have hnew : reference.newEncoder (List.replicate n 0) 0 = some (List.replicate n 0, []) :=
      if_neg fun h => h.elim hbuffer fun h => by omega
    have hput : reference.putUnsigned (List.replicate n 0, []) v =
        some (List.replicate n 0, ueCode v) := by
      refine if_pos ?_
      rw [List.length_nil, List.length_replicate]
      omega
    refine ⟨_, _, _, _, _, hnew, hput, rfl, Nat.div_add_mod' (ueCode v).length 8, ?_⟩
    have hlen : 8 * n ≤
        (ueCode v ++ (bits (List.replicate n 0)).drop (ueCode v).length).length := by
      rw [List.length_append, List.length_drop, length_bits, List.length_replicate]
      omega
    show ueCode v <+: bits (pack (List.replicate n (0 : UInt8)).length _)
    rw [List.length_replicate, bits_pack n hlen, List.take_of_length_le (by
      rw [List.length_append, List.length_drop, length_bits, List.length_replicate]
      omega)]
    exact List.prefix_append _ _

/-! ## Both rewriters -/

/-- **The rewriter preserves meaning** wherever no counter and no signed element overflows, and
nowhere else. -/
theorem rewriting_preserves_iff {crate : ExpGolomb} (hc : CodesAsH264 crate) (nal : List UInt8) :
    (SpsPreserved crate nal ↔ ¬SpsOverflows nal) ∧ (IdrPreserved crate nal ↔ ¬IdrOverflows nal) :=
  ⟨spsPreserved_iff hc nal, idrPreserved_iff hc nal⟩

/-- The slice of an IDR picture as the encoder gives it. -/
theorem rewriting_preserves_iff_slice :
    (SpsPreserved reference [0, 0, 0, 1, 0x65, 0x88, 0x84, 0x1f, 0xa0] ↔
        ¬SpsOverflows [0, 0, 0, 1, 0x65, 0x88, 0x84, 0x1f, 0xa0]) ∧
      (IdrPreserved reference [0, 0, 0, 1, 0x65, 0x88, 0x84, 0x1f, 0xa0] ↔
        ¬IdrOverflows [0, 0, 0, 1, 0x65, 0x88, 0x84, 0x1f, 0xa0]) :=
  rewriting_preserves_iff reference_codes _

/-- A slice with `slice_qp_delta = -2 ^ 31` and no deblocking offsets. -/
def minSlice : IdrSyntax := ⟨0, 7, 0, 0, false, false, -2 ^ 31, 1, none⟩

/-- **The smallest `slice_qp_delta` makes `rewrite_idr` panic.** -/
theorem smallest_qp_delta_panics : ¬IdrPreserved reference
    [0, 0, 0, 1, 0x65, 0x88, 0x84, 0, 0, 3, 0, 0, 0x80, 0, 0, 3, 0, 0xaf, 0x80] := by
  rw [idrPreserved_iff reference_codes, not_not]
  have hfits : minSlice.Fits :=
    ⟨by decide, by decide, rfl, by decide, by decide, ⟨by decide, by decide⟩, by decide,
      ⟨fun _ => rfl, fun _ => rfl⟩, fun o h => by cases h⟩
  refine .inr ⟨[0, 0, 0, 1], 0x65, minSlice, [0x80], hfits, .inl rfl,
    [0x88, 0x84, 0, 0, 3, 0, 0, 0x80, 0, 0, 3, 0, 0xaf, 0x80],
    [0x88, 0x84, 0, 0, 0, 0, 0x80, 0, 0, 0, 0xaf, 0x80], 4, ⟨.inl rfl, rfl⟩, by decide, by decide,
    ?_, by decide, ?_, ?_⟩
  · decide
  · decide
  · decide

end Catplay.Analysis.Fb
