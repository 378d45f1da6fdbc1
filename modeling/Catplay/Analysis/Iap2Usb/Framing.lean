import Catplay.Analysis.Link.Stream
import Catplay.Model.Iap2Usb.HidFraming

/-!
# Messages in HID reports

A message is put into reports whose size the sender chooses anew for each of them, and the
receiver keeps the padding of the last one. What a descriptor gives the sender is enough for
every choice to succeed (`Usable`). The reports from an offset on carry the rest of the
message and zeros behind it (`splitFrom_spec`), so that the frames of the link are read back
from the fragments (`hid_roundTrip`).
-/

set_option autoImplicit false

namespace Catplay.Analysis.Iap2Usb

open Catplay.Model.Iap2Usb

/-! ## The sizes of a descriptor -/

/-- There is a report, none has the id 0, and each has room for a byte behind its header. -/
structure Usable (sizes : Sizes) : Prop where
  noZero : sizes 0 = 0
  some : ∃ id ∈ reportIds, 3 ≤ (sizes id).toNat

theorem mem_reportIds {id : UInt8} : id ∈ reportIds ↔ id ≠ 0 := by
  unfold reportIds
  rw [List.mem_map]
  constructor
  · rintro ⟨n, hn, rfl⟩ hzero
    have hn' := List.mem_range'_1.mp hn
    have hmod := congrArg UInt8.toNat hzero
    simp at hmod
    omega
  · intro hid
    refine ⟨id.toNat, List.mem_range'_1.mpr ⟨?_, ?_⟩, UInt8.ofNat_toNat⟩
    · have hne : id.toNat ≠ 0 := fun hzero => hid (UInt8.toNat_inj.mp hzero)
      omega
    · have hlt := id.toNat_lt
      omega

/-- The sizes of an accepted direction. -/
theorem usable_of_fields {field : Nat → Field}
    (hformed : ∀ id ∈ allIds, (field id).wellFormed id = true)
    (hvendor : ∃ id ∈ allIds, (field id).vendor = true) :
    Usable fun id => (field id.toNat).reportSize := by
  have hsize : ∀ id ∈ allIds, (field id).vendor = true →
      id ≠ 0 ∧ 3 ≤ (field id).reportSize.toNat := by
    intro id hid hv
    have hwell := hformed id hid
    unfold Field.wellFormed at hwell
    rw [hv] at hwell
    simp only [Bool.not_true, Bool.false_or, Bool.not_eq_true', Bool.or_eq_false_iff,
      decide_eq_false_iff_not] at hwell
    obtain ⟨⟨⟨hne, -⟩, hlow⟩, hhigh⟩ := hwell
    refine ⟨hne, ?_⟩
    unfold Field.reportSize maxBits at *
    rw [if_pos hv, UInt16.toNat_ofNat', Nat.mod_eq_of_lt] <;> omega
  refine ⟨?_, ?_⟩
  · have hnone : (field 0).vendor = false := by
      rw [Bool.eq_false_iff]
      intro hv
      exact (hsize 0 (by decide) hv).1 rfl
    show (field 0).reportSize = 0
    unfold Field.reportSize
    rw [hnone]
    rfl
  · obtain ⟨id, hid, hv⟩ := hvendor
    obtain ⟨hne, hlarge⟩ := hsize id hid hv
    have hlt : id < 256 := List.mem_range.mp hid
    have hback : (UInt8.ofNat id).toNat = id := by
      rw [UInt8.toNat_ofNat', Nat.mod_eq_of_lt hlt]
    refine ⟨UInt8.ofNat id, mem_reportIds.mpr fun hzero => hne ?_, ?_⟩
    · rw [← hback, hzero]
      rfl
    · show 3 ≤ (field (UInt8.ofNat id).toNat).reportSize.toNat
      rw [hback]
      exact hlarge

/-- **An accepted descriptor** is usable in both directions. -/
theorem hidReportsParse_usable {desc : Bytes} {reports : HidReports}
    (h : hidReportsParse desc = some reports) : Usable reports.input ∧ Usable reports.output := by
  unfold hidReportsParse at h
  obtain ⟨parser, -, h⟩ := Option.bind_eq_some_iff.mp h
  split at h
  · cases h
  · split at h
    · cases h
    · rename_i hformed
      split at h
      · cases h
      · rename_i hinput
        split at h
        · cases h
        · rename_i houtput
          obtain rfl := Option.some.inj h
          simp only [Bool.not_eq_true', Bool.not_eq_false] at hformed hinput houtput
          rw [List.all_eq_true] at hformed
          rw [List.any_eq_true] at hinput houtput
          exact ⟨usable_of_fields (fun id hid => (Bool.and_eq_true _ _ ▸ hformed id hid).1) hinput,
            usable_of_fields (fun id hid => (Bool.and_eq_true _ _ ▸ hformed id hid).2) houtput⟩

/-! ## The choice of a report -/

/-- What the loop of the choice keeps: both choices are none or large enough for a byte, and the
larger one is there once a report was seen. -/
structure Chosen (sizes : Sizes) (seen : List UInt8) (chosen : UInt8 × UInt8) : Prop where
  best : chosen.1 = 0 ∨ 3 ≤ (sizes chosen.1).toNat
  largest : chosen.2 = 0 ∨ 3 ≤ (sizes chosen.2).toNat
  found : ∀ id ∈ seen, 3 ≤ (sizes id).toNat → chosen.2 ≠ 0

variable {sizes : Sizes} {data : Bytes} {offset : Nat} {fragment : HidFragment}
  {fragments : List HidFragment}

theorem Chosen.step {seen : List UInt8} {chosen : UInt8 × UInt8} (h : Chosen sizes seen chosen)
    (hzero : sizes 0 = 0) (remaining : Nat) {i : UInt8} (hi : i ≠ 0) :
    Chosen sizes (seen ++ [i]) (chooseStep sizes remaining chosen i) := by
  unfold chooseStep
  split
  · rename_i hsmall
    refine ⟨h.best, h.largest, fun id hid hlarge => ?_⟩
    rcases List.mem_append.mp hid with hid | hid
    · exact h.found id hid hlarge
    · rw [List.mem_singleton.mp hid] at hlarge
      omega
  · rename_i hlarge
    refine ⟨?_, ?_, fun id hid hid' => ?_⟩
    · dsimp only
      split
      · exact Or.inr (by omega)
      · exact h.best
    · dsimp only
      split
      · exact Or.inr (by omega)
      · exact h.largest
    · dsimp only
      split
      · exact hi
      · rename_i hless
        -- without a largest report so far this one would have been taken
        intro hnone
        rw [hnone, hzero] at hless
        exact hless (UInt16.le_iff_toNat_le.mpr (Nat.zero_le _))

theorem chooseReport_spec (h : Usable sizes) (remaining : Nat) :
    chooseReport sizes remaining ≠ 0 ∧ 3 ≤ (sizes (chooseReport sizes remaining)).toNat := by
  have hrun : ∀ ids : List UInt8, (∀ i ∈ ids, i ≠ 0) → ∀ seen chosen, Chosen sizes seen chosen →
      Chosen sizes (seen ++ ids) (ids.foldl (chooseStep sizes remaining) chosen) := by
    intro ids hids
    induction ids with
    | nil =>
      intro seen chosen hchosen
      rw [List.append_nil]
      exact hchosen
    | cons i ids ih =>
      intro seen chosen hchosen
      have hnext := ih (fun j hj => hids j (List.mem_cons_of_mem i hj)) _ _
        (hchosen.step h.noZero remaining (hids i List.mem_cons_self))
      rw [List.append_assoc] at hnext
      exact hnext
  have hall := hrun reportIds (fun i hi => mem_reportIds.mp hi) [] (0, 0)
    ⟨Or.inl rfl, Or.inl rfl, fun id hid => by cases hid⟩
  rw [List.nil_append] at hall
  obtain ⟨id, hid, hlarge⟩ := h.some
  have hfound := hall.found id hid hlarge
  unfold chooseReport
  dsimp only
  split
  · exact ⟨hfound, hall.largest.resolve_left hfound⟩
  · rename_i hbest
    exact ⟨hbest, hall.best.resolve_left hbest⟩

/-- A maximum is at least every number it is taken over. -/
theorem le_foldl_max {α : Type} (f : α → Nat) (l : List α) (len : Nat) :
    len ≤ l.foldl (fun len a => max len (f a)) len ∧
      ∀ a ∈ l, f a ≤ l.foldl (fun len a => max len (f a)) len := by
  induction l generalizing len with
  | nil => exact ⟨Nat.le_refl _, fun a ha => by cases ha⟩
  | cons b l ih =>
    obtain ⟨hlen, hall⟩ := ih (max len (f b))
    rw [List.foldl_cons]
    refine ⟨Nat.le_trans (Nat.le_max_left _ _) hlen, fun a ha => ?_⟩
    rcases List.mem_cons.mp ha with rfl | ha
    · exact Nat.le_trans (Nat.le_max_right _ _) hlen
    · exact hall a ha

/-- Every report fits in the capacity. -/
theorem le_maxReportLen (sizes : Sizes) {id : UInt8} (hid : id ≠ 0) :
    (sizes id).toNat ≤ maxReportLen sizes :=
  (le_foldl_max (fun i => (sizes i).toNat) reportIds 0).2 id (mem_reportIds.mpr hid)

/-! ## One report -/

/-- **Encoding a report** never fails inside a message; it takes some of the rest, and all of it
if it pads. -/
theorem hidReportEncode_spec (h : Usable sizes) (hoffset : offset < data.length) :
    ∃ id n padding, id ≠ 0 ∧ 0 < n ∧ offset + n ≤ data.length ∧
      (offset + n < data.length → padding = 0) ∧ 2 + n + padding = (sizes id).toNat ∧
      hidReportEncode sizes data offset (maxReportLen sizes) =
        .ok (id :: ((if offset = 0 then 0 else 1) |||
            (if offset + n < data.length then 2 else 0)) ::
          ((data.drop offset).take n ++ List.replicate padding 0), offset + n) := by
  obtain ⟨hid, hlarge⟩ := chooseReport_spec h (data.length - offset)
  have hfits := le_maxReportLen sizes hid
  refine ⟨chooseReport sizes (data.length - offset),
    min (data.length - offset) ((sizes (chooseReport sizes (data.length - offset))).toNat - 2),
    (sizes (chooseReport sizes (data.length - offset))).toNat - 2 -
      min (data.length - offset) ((sizes (chooseReport sizes (data.length - offset))).toNat - 2),
    hid, by omega, by omega, fun hmore => by omega, by omega, ?_⟩
  unfold hidReportEncode
  rw [if_neg (by omega)]
  dsimp only
  rw [if_neg hid, if_neg (by omega)]
  generalize hn : min (data.length - offset)
    ((sizes (chooseReport sizes (data.length - offset))).toNat - 2) = n
  have hflag : (data.length - offset > n) = (offset + n < data.length) := by
    rw [eq_iff_iff]
    omega
  simp only [hflag, List.cons_append]

/-- **Decoding a report** that a sender has made. -/
theorem hidReportDecode_spec (first more : Prop) [Decidable first] [Decidable more]
    (continuing : Bool) (id : UInt8) (hdata : data ≠ [])
    (hcontinuing : ¬ first → continuing = true) :
    hidReportDecode continuing
        (id :: ((if first then 0 else 1) ||| (if more then 2 else 0)) :: data) =
      (.ok { data, starts := decide first, ends := decide (¬ more) }, decide more) := by
  have hboth : (1 ||| 2 : UInt8) = 3 := rfl
  have hclear : (1 &&& ~~~3 : UInt8) = 0 ∧ (2 &&& ~~~3 : UInt8) = 0 ∧ (3 &&& ~~~3 : UInt8) = 0 := by
    decide
  have hlow : (1 &&& 1 : UInt8) = 1 ∧ (2 &&& 1 : UInt8) = 0 ∧ (3 &&& 1 : UInt8) = 1 := by
    decide
  have hhigh : (1 &&& 2 : UInt8) = 0 ∧ (2 &&& 2 : UInt8) = 2 ∧ (3 &&& 2 : UInt8) = 2 := by
    decide
  unfold hidReportDecode
  dsimp only
  by_cases hfirst : first <;> by_cases hmore : more
  · simp [hfirst, hmore, hdata, hclear, hlow, hhigh]
  · simp [hfirst, hmore, hdata]
  · simp [hfirst, hmore, hdata, hcontinuing hfirst, hboth, hclear, hlow, hhigh]
  · simp [hfirst, hmore, hdata, hcontinuing hfirst, hclear, hlow, hhigh]

theorem decodeReports_cons {continuing next : Bool} {report : Bytes}
    (h : hidReportDecode continuing report = (.ok fragment, next)) (reports : List Bytes) :
    decodeReports continuing (report :: reports) =
      (decodeReports next reports).map fun rest => (fragment :: rest.1, rest.2) := by
  conv_lhs => unfold decodeReports
  rw [h]

/-! ## A whole message -/

/-- The fragments from an offset on: they carry the rest of the message, zeros follow in the last
one only, and the flags say which is the first and which is the last. -/
inductive Carries (data : Bytes) : Nat → List HidFragment → Prop
  | last (offset padding : Nat) (hoffset : offset < data.length) :
      Carries data offset
        [⟨data.drop offset ++ List.replicate padding 0, decide (offset = 0), true⟩]
  | more (offset n : Nat) (rest : List HidFragment) (hn : 0 < n) (hoffset : offset + n < data.length)
      (hrest : Carries data (offset + n) rest) :
      Carries data offset (⟨(data.drop offset).take n, decide (offset = 0), false⟩ :: rest)

/-- The report is as long as its id says. -/
def HasSize (sizes : Sizes) (report : Bytes) : Prop :=
  ∃ id rest, report = id :: rest ∧ id ≠ 0 ∧ report.length = (sizes id).toNat

/-- **The reports from an offset on** are found, have their sizes, and are decoded to the fragments
of the rest of the message. -/
theorem splitFrom_spec (h : Usable sizes) (fuel : Nat)
    (hoffset : offset < data.length) (hfuel : data.length < fuel + offset) :
    ∃ reports fragments, splitFrom sizes data fuel offset = some reports ∧
      (∀ report ∈ reports, HasSize sizes report) ∧ reports.length = fragments.length ∧
      Carries data offset fragments ∧
      ∀ continuing later, (offset ≠ 0 → continuing = true) →
        decodeReports continuing (reports ++ later) =
          (decodeReports false later).map fun rest => (fragments ++ rest.1, rest.2) := by
  induction fuel generalizing offset with
  | zero => omega
  | succ fuel ih =>
    obtain ⟨id, n, padding, hid, hn, hinside, hpadding, hsize, hencode⟩ :=
      hidReportEncode_spec h hoffset
    have htake : ((data.drop offset).take n).length = n := by
      rw [List.length_take, List.length_drop]
      omega
    have hnonempty : (data.drop offset).take n ++ List.replicate padding 0 ≠ [] := by
      intro hnil
      have hlength := congrArg List.length hnil
      rw [List.length_append, htake, List.length_nil] at hlength
      omega
    have hsized : HasSize sizes (id :: ((if offset = 0 then 0 else 1) |||
        (if offset + n < data.length then 2 else 0)) ::
          ((data.drop offset).take n ++ List.replicate padding 0)) := by
      refine ⟨id, _, rfl, hid, ?_⟩
      rw [List.length_cons, List.length_cons, List.length_append, htake, List.length_replicate]
      omega
    have hdecode : ∀ continuing, (offset ≠ 0 → continuing = true) → _ := fun continuing hc =>
      hidReportDecode_spec (offset = 0) (offset + n < data.length) continuing id hnonempty hc
    unfold splitFrom
    rw [if_pos hoffset, hencode]
    dsimp only
    by_cases hmore : offset + n < data.length
    · obtain rfl : padding = 0 := hpadding hmore
      obtain ⟨reports, fragments, hsplit, hsizes, hlength, hcarries, hlater⟩ :=
        ih hmore (by omega)
      refine ⟨_ :: reports, ⟨(data.drop offset).take n, decide (offset = 0), false⟩ :: fragments,
        by rw [hsplit]; rfl, ?_, by rw [List.length_cons, List.length_cons, hlength],
        .more offset n fragments hn hmore hcarries, fun continuing later hc => ?_⟩
      · intro report hreport
        rcases List.mem_cons.mp hreport with rfl | hreport
        · exact hsized
        · exact hsizes report hreport
      · have hends : decide (¬ offset + n < data.length) = false := by simp [hmore]
        rw [List.cons_append, decodeReports_cons (hdecode continuing hc), decide_eq_true hmore,
          hlater true later fun _ => rfl, Option.map_map, hends, List.replicate_zero,
          List.append_nil]
        rfl
    · have hall : (data.drop offset).take n = data.drop offset := by
        refine List.take_of_length_le ?_
        rw [List.length_drop]
        omega
      have hend : splitFrom sizes data fuel (offset + n) = some [] := by
        obtain ⟨fuel, rfl⟩ : ∃ k, fuel = k + 1 := ⟨fuel - 1, by omega⟩
        unfold splitFrom
        rw [if_neg hmore]
      rw [hend]
      refine ⟨_, [⟨data.drop offset ++ List.replicate padding 0, decide (offset = 0), true⟩], rfl,
        ?_, rfl, .last offset padding hoffset, fun continuing later hc => ?_⟩
      · intro report hreport
        rw [List.mem_singleton.mp hreport]
        exact hsized
      · have hends : decide (¬ offset + n < data.length) = true := by simp [hmore]
        rw [List.singleton_append, decodeReports_cons (hdecode continuing hc),
          decide_eq_false hmore, hends, hall]
        rfl

/-- The fragments of a whole message. -/
structure Fragmented (message : Bytes) (fragments : List HidFragment) : Prop where
  content : ∃ padding, fragments.flatMap HidFragment.data = message ++ List.replicate padding 0
  unpadded : ∃ rest, rest ≠ [] ∧ message = fragments.dropLast.flatMap HidFragment.data ++ rest
  starts : ∀ i fragment, fragments[i]? = some fragment → (fragment.starts = true ↔ i = 0)
  ends : ∀ i fragment, fragments[i]? = some fragment →
    (fragment.ends = true ↔ i + 1 = fragments.length)

theorem Carries.ne_nil (h : Carries data offset fragments) : fragments ≠ [] := by
  cases h <;> exact List.cons_ne_nil _ _

theorem Carries.content (h : Carries data offset fragments) :
    ∃ padding, fragments.flatMap HidFragment.data =
      data.drop offset ++ List.replicate padding 0 := by
  induction h with
  | last offset padding hoffset =>
    refine ⟨padding, ?_⟩
    rw [List.flatMap_singleton]
  | more offset n rest hn hoffset hrest ih =>
    obtain ⟨padding, hcontent⟩ := ih
    refine ⟨padding, ?_⟩
    rw [List.flatMap_cons, hcontent, ← List.append_assoc, ← List.drop_drop, List.take_append_drop]

theorem Carries.unpadded (h : Carries data offset fragments) :
    ∃ rest, rest ≠ [] ∧
      data.drop offset = fragments.dropLast.flatMap HidFragment.data ++ rest := by
  induction h with
  | last offset padding hoffset =>
    refine ⟨data.drop offset, fun hnil => ?_, rfl⟩
    have hlength := congrArg List.length hnil
    rw [List.length_drop, List.length_nil] at hlength
    omega
  | more offset n rest hn hoffset hrest ih =>
    obtain ⟨last, hlast, hdata⟩ := ih
    refine ⟨last, hlast, ?_⟩
    rw [List.dropLast_cons_of_ne_nil hrest.ne_nil, List.flatMap_cons, List.append_assoc, ← hdata,
      ← List.drop_drop, List.take_append_drop]

theorem Carries.starts (h : Carries data offset fragments) {i : Nat}
    (hi : fragments[i]? = some fragment) : fragment.starts = true ↔ offset = 0 ∧ i = 0 := by
  induction h generalizing i with
  | last offset padding hoffset =>
    cases i with
    | zero =>
      rw [← Option.some.inj hi]
      simp
    | succ i => cases hi
  | more offset n rest hn hoffset hrest ih =>
    cases i with
    | zero =>
      rw [← Option.some.inj hi]
      simp
    | succ i =>
      rw [List.getElem?_cons_succ] at hi
      rw [ih hi]
      omega

theorem Carries.ends (h : Carries data offset fragments) {i : Nat}
    (hi : fragments[i]? = some fragment) : fragment.ends = true ↔ i + 1 = fragments.length := by
  induction h generalizing i with
  | last offset padding hoffset =>
    cases i with
    | zero =>
      rw [← Option.some.inj hi]
      simp
    | succ i => cases hi
  | more offset n rest hn hoffset hrest ih =>
    have hpositive := List.length_pos_iff.mpr hrest.ne_nil
    rw [List.length_cons]
    cases i with
    | zero =>
      rw [← Option.some.inj hi]
      simp only [Bool.false_eq_true, false_iff]
      omega
    | succ i =>
      rw [List.getElem?_cons_succ] at hi
      rw [ih hi]
      omega

theorem Carries.fragmented {message : Bytes}
    (h : Carries message 0 fragments) : Fragmented message fragments where
  content := h.content
  unpadded := h.unpadded
  starts i fragment hi := by
    rw [h.starts hi]
    simp
  ends i fragment hi := h.ends hi

/-- **The reports of a message.** -/
theorem splitMessage_spec (h : Usable sizes) {message : Bytes} (hmessage : 1 ≤ message.length) :
    ∃ reports fragments, splitMessage sizes message = some reports ∧
      (∀ report ∈ reports, HasSize sizes report) ∧ reports.length = fragments.length ∧
      Fragmented message fragments ∧
      ∀ later, decodeReports false (reports ++ later) =
        (decodeReports false later).map fun rest => (fragments ++ rest.1, rest.2) := by
  obtain ⟨reports, fragments, hsplit, hsizes, hlength, hcarries, hdecode⟩ :=
    splitFrom_spec h (message.length + 1) (show 0 < message.length from hmessage) (by omega)
  exact ⟨reports, fragments, hsplit, hsizes, hlength, hcarries.fragmented,
    fun later => hdecode false later fun hne => absurd rfl hne⟩

/-! ## The frames of the link -/

section Frames

open Catplay.Library.StreamDecoder Catplay.Analysis.Link
open Catplay.Model.Link (PacketOrDetect PacketCoder)

/-- The padding behind a message is skipped. -/
theorem decodeAll_zeros (padding : Nat) (src : Bytes) :
    decodeAll decodeStep () (List.replicate padding 0 ++ src) = decodeAll decodeStep () src := by
  rw [lawful_decodeStep.decodeAll_eq, lawful_decodeStep.decodeAll_eq () src]
  unfold decodeStep
  rw [decode_zeros]

/-- **The frames of padded messages**, one in each. -/
theorem decodeAll_padded {frames : List PacketOrDetect} {messages : List Bytes}
    (hencode : List.Forall₂ (fun frame message => Encodable frame ∧
      PacketCoder.encode frame = .ok message) frames messages)
    {padded : List Bytes}
    (hpadded : List.Forall₂ (fun message bytes => ∃ padding,
      bytes = message ++ List.replicate padding 0) messages padded) :
    decodeAll decodeStep () padded.flatten = (frames, .ok ((), [])) := by
  induction hencode generalizing padded with
  | nil =>
    cases hpadded
    rfl
  | @cons frame message frames messages hframe hframes ih =>
    cases hpadded with
    | @cons _ bytes _ padded hbytes hpadded =>
      obtain ⟨padding, rfl⟩ := hbytes
      obtain ⟨encoded, hencoded, hdecode⟩ := decode_encode hframe.1
      obtain rfl : encoded = message := by
        rw [hframe.2] at hencoded
        exact (Except.ok.inj hencoded).symm
      have hitem : decodeStep () (encoded ++ (List.replicate padding 0 ++ padded.flatten)) =
          .item frame () (List.replicate padding 0 ++ padded.flatten) := by
        unfold decodeStep
        rw [hdecode]
      rw [List.flatten_cons, List.append_assoc, lawful_decodeStep.decodeAll_item hitem,
        decodeAll_zeros, ih hpadded]
      rfl

end Frames

/-! ## The messages of a connection -/

/-- What becomes of a message: its reports, and the fragments they are decoded to. -/
structure Part (sizes : Sizes) (message : Bytes) (reports : List Bytes)
    (fragments : List HidFragment) : Prop where
  split : splitMessage sizes message = some reports
  sized : ∀ report ∈ reports, HasSize sizes report
  length : reports.length = fragments.length
  fragmented : Fragmented message fragments

/-- The messages of a connection one behind the other. -/
theorem splitMessages_spec (h : Usable sizes) (messages : List Bytes)
    (hmessages : ∀ message ∈ messages, 1 ≤ message.length) :
    ∃ parts : List (List Bytes × List HidFragment),
      List.Forall₂ (fun message part => Part sizes message part.1 part.2) messages parts ∧
      decodeReports false (parts.flatMap Prod.fst) = some (parts.flatMap Prod.snd, false) := by
  induction messages with
  | nil => exact ⟨[], .nil, rfl⟩
  | cons message messages ih =>
    obtain ⟨parts, hparts, hdecodes⟩ :=
      ih fun m hm => hmessages m (List.mem_cons_of_mem message hm)
    obtain ⟨reports, fragments, hsplit, hsizes, hlength, hfragmented, hdecode⟩ :=
      splitMessage_spec h (hmessages message List.mem_cons_self)
    refine ⟨(reports, fragments) :: parts, .cons ⟨hsplit, hsizes, hlength, hfragmented⟩ hparts, ?_⟩
    rw [List.flatMap_cons, List.flatMap_cons, hdecode, hdecodes]
    rfl

/-- **HID round trip.** With an accepted descriptor every message is split into reports of the
sizes it gives, the receiver accepts them in order and has the messages with zeros behind each;
frames sent as one message each come out of the decoder whatever pieces it reads. -/
theorem hid_roundTrip (desc : Bytes) (reports : HidReports)
    (hparse : hidReportsParse desc = some reports) (sizes : Sizes)
    (hsizes : sizes = reports.input ∨ sizes = reports.output) (messages : List Bytes)
    (hmessages : ∀ message ∈ messages, 1 ≤ message.length ∧ message.length ≤ 65535) :
    ∃ parts : List (List Bytes × List HidFragment),
      List.Forall₂ (fun message part => Part sizes message part.1 part.2) messages parts ∧
      decodeReports false (parts.flatMap Prod.fst) = some (parts.flatMap Prod.snd, false) ∧
      ∀ frames chunks,
        List.Forall₂ (fun frame message => Link.Encodable frame ∧
          Catplay.Model.Link.PacketCoder.encode frame = .ok message) frames messages →
        chunks.flatten = (parts.flatMap Prod.snd).flatMap HidFragment.data →
        Catplay.Library.StreamDecoder.feed Link.decodeStep () [] chunks =
          (frames, .ok ((), [])) := by
  have husable : Usable sizes := by
    obtain ⟨hinput, houtput⟩ := hidReportsParse_usable hparse
    rcases hsizes with rfl | rfl
    · exact hinput
    · exact houtput
  obtain ⟨parts, hparts, hdecodes⟩ :=
    splitMessages_spec husable messages fun message hm => (hmessages message hm).1
  refine ⟨parts, hparts, hdecodes, fun frames chunks hframes hchunks => ?_⟩
  have hpadded : List.Forall₂ (fun message bytes => ∃ padding,
      bytes = message ++ List.replicate padding 0) messages
        (parts.map fun part => part.2.flatMap HidFragment.data) := by
    rw [List.forall₂_map_right_iff]
    exact hparts.imp fun message part hpart => hpart.fragmented.content
  have hsettled : Catplay.Library.StreamDecoder.decodeAll Link.decodeStep () [] =
      ([], .ok ((), [])) := rfl
  have hbytes : (parts.map fun part => part.2.flatMap HidFragment.data).flatten =
      (parts.flatMap Prod.snd).flatMap HidFragment.data := by
    rw [List.flatMap_assoc, List.flatMap_def]
  rw [Link.lawful_decodeStep.feed_eq chunks hsettled, List.nil_append, hchunks, ← hbytes]
  exact decodeAll_padded hframes hpadded

/-- Input reports of three bytes and an output report of five: the detect sequence takes six of the
former. -/
theorem hid_roundTrip_detect :
    ∃ (reports : HidReports) (parts : List (List Bytes × List HidFragment)),
      hidReportsParse [0x06, 0x00, 0xff, 0x75, 0x08, 0x85, 0x01, 0x95, 0x02, 0x81, 0x02,
        0x85, 0x02, 0x95, 0x04, 0x91, 0x02] = some reports ∧
      decodeReports false (parts.flatMap Prod.fst) = some (parts.flatMap Prod.snd, false) ∧
      Catplay.Library.StreamDecoder.feed Link.decodeStep () []
        ((parts.flatMap Prod.snd).map HidFragment.data) = ([.detect], .ok ((), [])) := by
  have hsome : (hidReportsParse [0x06, 0x00, 0xff, 0x75, 0x08, 0x85, 0x01, 0x95, 0x02, 0x81, 0x02,
      0x85, 0x02, 0x95, 0x04, 0x91, 0x02]).isSome = true := by
    decide +kernel
  obtain ⟨reports, hparse⟩ := Option.isSome_iff_exists.mp hsome
  obtain ⟨parts, -, hdecodes, hframes⟩ := hid_roundTrip _ reports hparse reports.input (Or.inl rfl)
    [[0xff, 0x55, 0x02, 0x00, 0xee, 0x10]] (by simp)
  refine ⟨reports, parts, hparse, hdecodes, hframes [.detect] _ ?_ List.flatMap_def.symm⟩
  exact .cons ⟨.detect, by decide⟩ .nil

end Catplay.Analysis.Iap2Usb
