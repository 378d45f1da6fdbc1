import Mathlib.Data.List.Flatten
import Catplay.Analysis.Iap2Usb.Descriptor
import Catplay.Model.Iap2Usb.HidGadget

/-!
# Control transfers and their buffers

Every buffer is allocated from the descriptor when the function is bound, and keeps its size
(`Sized`). No copy goes out of one, whatever the host asks for; the length of a request stays inside
its buffer except where a `SET_REPORT` takes the length from the host (`transfers_inside_iff`).
-/

set_option autoImplicit false

namespace Catplay.Analysis.Iap2Usb.Gadget

open Catplay.Library Catplay.Library.Checked Catplay.Model.Iap2Usb Catplay.Model.Iap2Usb.Gadget

/-! ## The length of a descriptor -/

/-- The globals in force and the ones that were pushed. -/
def inForce (state : HidState) : List Globals := state.1 :: state.2

/-- **An item sets one of the globals** or leaves all of them as they were. -/
theorem mem_inForce_apply {state : HidState} {item : DescItem} {g : Globals}
    (h : g ∈ inForce (item.apply state)) :
    g ∈ inForce state ∨ ∃ itemPrefix data, item = .short itemPrefix data ∧
      ((itemPrefix &&& 0xfc = 0x04 ∧ g = { state.1 with page := itemValue data }) ∨
        (itemPrefix &&& 0xfc = 0x74 ∧ g = { state.1 with size := itemValue data }) ∨
        (itemPrefix &&& 0xfc = 0x84 ∧ g = { state.1 with id := itemValue data }) ∨
        (itemPrefix &&& 0xfc = 0x94 ∧ g = { state.1 with count := itemValue data })) := by
  have hset : ∀ g', g ∈ inForce (g', state.2) → g ∈ inForce state ∨ g = g' := by
    intro g' hg
    rcases List.mem_cons.mp hg with rfl | hg
    · exact .inr rfl
    · exact .inl (List.mem_cons_of_mem _ hg)
  cases item with
  | long tag data => exact .inl h
  | short itemPrefix data =>
    unfold DescItem.apply at h
    dsimp only at h
    split at h
    · rename_i htag
      exact (hset _ h).imp_right fun hg => ⟨itemPrefix, data, rfl, .inl ⟨htag, hg⟩⟩
    · split at h
      · rename_i htag
        exact (hset _ h).imp_right fun hg => ⟨itemPrefix, data, rfl, .inr (.inl ⟨htag, hg⟩)⟩
      · split at h
        · rename_i htag
          exact (hset _ h).imp_right fun hg =>
            ⟨itemPrefix, data, rfl, .inr (.inr (.inl ⟨htag, hg⟩))⟩
        · split at h
          · rename_i htag
            exact (hset _ h).imp_right fun hg =>
              ⟨itemPrefix, data, rfl, .inr (.inr (.inr ⟨htag, hg⟩))⟩
          · left
            split at h
            · rcases List.mem_cons.mp h with rfl | h
              · exact List.mem_cons_self
              · exact h
            · split at h
              · split at h
                · exact h
                · rename_i g' stack hstack
                  show g ∈ state.1 :: state.2
                  rw [hstack]
                  exact List.mem_cons_of_mem _ h
              · exact h

/-- A global and the tag of the item that sets it. -/
structure SetBy (field : Globals → Nat) (tag : UInt8) : Prop where
  zero : field {} = 0
  apply : ∀ (state : HidState) (item : DescItem) (g : Globals), g ∈ inForce (item.apply state) →
    (∃ g' ∈ inForce state, field g = field g') ∨
      ∃ itemPrefix data, item = .short itemPrefix data ∧ itemPrefix &&& 0xfc = tag ∧
        field g = itemValue data

theorem setBy_page : SetBy Globals.page 0x04 := by
  refine ⟨rfl, fun state item g hg => ?_⟩
  rcases mem_inForce_apply hg with hg | ⟨itemPrefix, data, rfl,
    ⟨htag, rfl⟩ | ⟨-, rfl⟩ | ⟨-, rfl⟩ | ⟨-, rfl⟩⟩
  · exact .inl ⟨g, hg, rfl⟩
  · exact .inr ⟨itemPrefix, data, rfl, htag, rfl⟩
  all_goals exact .inl ⟨state.1, List.mem_cons_self, rfl⟩

theorem setBy_size : SetBy Globals.size 0x74 := by
  refine ⟨rfl, fun state item g hg => ?_⟩
  rcases mem_inForce_apply hg with hg | ⟨itemPrefix, data, rfl,
    ⟨-, rfl⟩ | ⟨htag, rfl⟩ | ⟨-, rfl⟩ | ⟨-, rfl⟩⟩
  · exact .inl ⟨g, hg, rfl⟩
  · exact .inl ⟨state.1, List.mem_cons_self, rfl⟩
  · exact .inr ⟨itemPrefix, data, rfl, htag, rfl⟩
  all_goals exact .inl ⟨state.1, List.mem_cons_self, rfl⟩

theorem setBy_id : SetBy Globals.id 0x84 := by
  refine ⟨rfl, fun state item g hg => ?_⟩
  rcases mem_inForce_apply hg with hg | ⟨itemPrefix, data, rfl,
    ⟨-, rfl⟩ | ⟨-, rfl⟩ | ⟨htag, rfl⟩ | ⟨-, rfl⟩⟩
  · exact .inl ⟨g, hg, rfl⟩
  · exact .inl ⟨state.1, List.mem_cons_self, rfl⟩
  · exact .inl ⟨state.1, List.mem_cons_self, rfl⟩
  · exact .inr ⟨itemPrefix, data, rfl, htag, rfl⟩
  · exact .inl ⟨state.1, List.mem_cons_self, rfl⟩

theorem setBy_count : SetBy Globals.count 0x94 := by
  refine ⟨rfl, fun state item g hg => ?_⟩
  rcases mem_inForce_apply hg with hg | ⟨itemPrefix, data, rfl,
    ⟨-, rfl⟩ | ⟨-, rfl⟩ | ⟨-, rfl⟩ | ⟨htag, rfl⟩⟩
  · exact .inl ⟨g, hg, rfl⟩
  · exact .inl ⟨state.1, List.mem_cons_self, rfl⟩
  · exact .inl ⟨state.1, List.mem_cons_self, rfl⟩
  · exact .inl ⟨state.1, List.mem_cons_self, rfl⟩
  · exact .inr ⟨itemPrefix, data, rfl, htag, rfl⟩

/-- **What a main item is declared under** was set by an item. -/
theorem SetBy.item {field : Globals → Nat} {tag : UInt8} (hset : SetBy field tag)
    {items : List DescItem} {state : HidState} {m : Direction × Globals}
    (hm : m ∈ declared state items) (hzero : ∀ g ∈ inForce state, field g ≠ field m.2) :
    ∃ itemPrefix data, DescItem.short itemPrefix data ∈ items ∧ itemPrefix &&& 0xfc = tag ∧
      field m.2 = itemValue data := by
  induction items generalizing state with
  | nil => cases hm
  | cons item items ih =>
    rcases List.mem_append.mp hm with hm | hm
    · rw [Option.mem_toList, Option.map_eq_some_iff] at hm
      obtain ⟨d, -, rfl⟩ := hm
      exact absurd rfl (hzero state.1 List.mem_cons_self)
    · by_cases hhere : ∃ g ∈ inForce (item.apply state), field g = field m.2
      · obtain ⟨g, hg, heq⟩ := hhere
        rcases hset.apply state item g hg with
          ⟨g', hg', hsame⟩ | ⟨itemPrefix, data, rfl, htag, hv⟩
        · exact absurd (hsame.symm.trans heq) (hzero g' hg')
        · exact ⟨itemPrefix, data, List.mem_cons_self, htag, heq.symm.trans hv⟩
      · obtain ⟨itemPrefix, data, hmem, h⟩ := ih hm fun g hg heq => hhere ⟨g, hg, heq⟩
        exact ⟨itemPrefix, data, List.mem_cons_of_mem item hmem, h⟩

theorem SetBy.item_of_ne_zero {field : Globals → Nat} {tag : UInt8} (hset : SetBy field tag)
    {items : List DescItem} {m : Direction × Globals} (hm : m ∈ declared ({}, []) items)
    (hne : field m.2 ≠ 0) :
    ∃ itemPrefix data, DescItem.short itemPrefix data ∈ items ∧ itemPrefix &&& 0xfc = tag ∧
      field m.2 = itemValue data := by
  refine hset.item hm fun g hg heq => hne ?_
  obtain rfl := List.mem_singleton.mp hg
  rw [← heq, hset.zero]

/-- Different items of a descriptor have all their bytes in it. -/
theorem length_flatMap_le {items part : List DescItem} (hnodup : part.Nodup)
    (hsubset : part ⊆ items) :
    (part.flatMap DescItem.bytes).length ≤ (items.flatMap DescItem.bytes).length := by
  obtain ⟨l, hperm, hsublist⟩ := hnodup.subperm hsubset
  calc (part.flatMap DescItem.bytes).length
      = (l.flatMap DescItem.bytes).length := (hperm.flatMap_right _).length_eq.symm
    _ ≤ (items.flatMap DescItem.bytes).length := (hsublist.flatMap _).length_le

theorem two_le_length_of_itemValue {data : Bytes} (h : 0xff00 ≤ itemValue data) :
    2 ≤ data.length := by
  by_contra hshort
  have hlt := itemValue_lt data
  have hpow : 256 ^ data.length ≤ 256 ^ 1 := Nat.pow_le_pow_right (by decide) (by omega)
  omega

theorem length_pos_of_itemValue {data : Bytes} (h : itemValue data ≠ 0) : 1 ≤ data.length := by
  cases data with
  | nil => exact absurd rfl h
  | cons b data => exact Nat.succ_pos _

/-- **An accepted descriptor** has a page, an id, a size and a count: it is not shorter than the
descriptor that the host is given for it. -/
theorem hidDescriptor_le {desc : Bytes} {reports : HidReports}
    (h : hidReportsParse desc = some reports) : hidDescriptor.length ≤ desc.length := by
  obtain ⟨last, hlast, -, hcomplete, -⟩ := hidReportsParse_answers h
  obtain ⟨items, hitems⟩ := describes_of_parseItems hlast
  rw [hitems.bytes, parseItems_bytes hitems.wellFormed (Nat.lt_succ_self _)] at hlast
  have hadded : Added {} last (declared ({}, []) items) := foldlM_itemStep_spec hlast
  obtain ⟨id, hid, hvendor⟩ := hcomplete.vendor .input
  have hformed := hcomplete.formed .input id hid
  unfold Field.wellFormed at hformed
  simp only [hvendor, Bool.not_true, Bool.false_or, Bool.not_eq_true', Bool.or_eq_false_iff,
    decide_eq_false_iff_not] at hformed
  obtain ⟨⟨⟨hidne, -⟩, hlow⟩, -⟩ := hformed
  obtain ⟨vendor, hvendorMem, -, hvendorId, hpage⟩ :=
    ((hadded.vendor .input id).mp hvendor).resolve_left nofun
  have hbits : totalBits (declared ({}, []) items) .input id ≠ 0 := by
    have heq := hadded.bits .input id
    rw [Nat.zero_add] at heq
    omega
  obtain ⟨main, hmainMem, hproduct⟩ : ∃ m ∈ declared ({}, []) items,
      m.2.size * m.2.count ≠ 0 := by
    by_contra hnone
    refine hbits (List.sum_eq_zero fun n hn => ?_)
    obtain ⟨m, hm, rfl⟩ := List.mem_map.mp hn
    by_contra hne
    exact hnone ⟨m, (List.mem_filter.mp hm).1, hne⟩
  obtain ⟨hsize, hcount⟩ := not_or.mp fun hor => hproduct (Nat.mul_eq_zero.mpr hor)
  obtain ⟨p₁, data₁, hmem₁, htag₁, hvalue₁⟩ :=
    setBy_page.item_of_ne_zero hvendorMem (by omega)
  obtain ⟨p₂, data₂, hmem₂, htag₂, hvalue₂⟩ :=
    setBy_id.item_of_ne_zero hvendorMem (by rw [hvendorId]; exact hidne)
  obtain ⟨p₃, data₃, hmem₃, htag₃, hvalue₃⟩ := setBy_size.item_of_ne_zero hmainMem hsize
  obtain ⟨p₄, data₄, hmem₄, htag₄, hvalue₄⟩ := setBy_count.item_of_ne_zero hmainMem hcount
  have hne : ∀ {p p' : UInt8} {data data' : Bytes} {t t' : UInt8}, p &&& 0xfc = t →
      p' &&& 0xfc = t' → t ≠ t' → DescItem.short p data ≠ DescItem.short p' data' := by
    rintro p p' data data' t t' rfl rfl hne heq
    cases heq
    exact hne rfl
  have hnodup : [DescItem.short p₁ data₁, .short p₂ data₂, .short p₃ data₃,
      .short p₄ data₄].Nodup := by
    refine List.nodup_cons.mpr ⟨?_, List.nodup_cons.mpr ⟨?_, List.nodup_cons.mpr ⟨?_,
      List.nodup_singleton _⟩⟩⟩
    · rw [List.mem_cons, List.mem_cons, List.mem_singleton]
      rintro (heq | heq | heq)
      · exact hne htag₁ htag₂ (by decide) heq
      · exact hne htag₁ htag₃ (by decide) heq
      · exact hne htag₁ htag₄ (by decide) heq
    · rw [List.mem_cons, List.mem_singleton]
      rintro (heq | heq)
      · exact hne htag₂ htag₃ (by decide) heq
      · exact hne htag₂ htag₄ (by decide) heq
    · rw [List.mem_singleton]
      exact hne htag₃ htag₄ (by decide)
  have hsubset : [DescItem.short p₁ data₁, .short p₂ data₂, .short p₃ data₃,
      .short p₄ data₄] ⊆ items := by
    intro item hitem
    simp only [List.mem_cons, List.not_mem_nil, or_false] at hitem
    rcases hitem with rfl | rfl | rfl | rfl <;> assumption
  have hlength := length_flatMap_le hnodup hsubset
  rw [← hitems.bytes] at hlength
  have h₁ := two_le_length_of_itemValue (hvalue₁ ▸ hpage)
  have h₂ : 1 ≤ data₂.length :=
    length_pos_of_itemValue (by rw [← hvalue₂, hvendorId]; exact hidne)
  have h₃ := length_pos_of_itemValue (hvalue₃ ▸ hsize)
  have h₄ := length_pos_of_itemValue (hvalue₄ ▸ hcount)
  simp only [List.flatMap_cons, List.flatMap_nil, List.append_nil, List.length_append,
    DescItem.bytes, List.length_cons] at hlength
  show 9 ≤ desc.length
  omega

/-! ## The buffers -/

/-- **The buffers are as large** as their reports and descriptors. -/
structure Sized (hid : IphoneHid) : Prop where
  last : ∀ id, (hid.last id).length = (hid.reports.input id).toNat
  inReq : ∀ id, (hid.reports.input id).toNat ≤ hid.inReq.buf.length
  ctrlReq : hid.inReq.buf.length ≤ hid.ctrlReq.buf.length
  reportDesc : hid.reportDesc.length ≤ hid.ctrlReq.buf.length
  hidDesc : hidDescriptor.length ≤ hid.ctrlReq.buf.length

variable {hid : IphoneHid}

theorem input_le_maxLen {reports : HidReports} (h : Usable reports.input) (id : UInt8) :
    (reports.input id).toNat ≤ maxLen reports := by
  by_cases hid : id = 0
  · rw [hid, h.noZero]
    exact Nat.zero_le _
  · have hle := (le_foldl_max (fun id => max (reports.input id).toNat (reports.output id).toNat)
      reportIds 0).2 id (mem_reportIds.mpr hid)
    exact (Nat.le_max_left _ _).trans hle

/-- **Binding** allocates them. -/
theorem bind_sized {res : Resources} {reportDesc : Bytes} (h : bind res reportDesc = .ok hid) :
    Sized hid := by
  unfold Gadget.bind at h
  split at h
  · cases h
  · cases hparsed : hidReportsParse reportDesc with
    | none =>
      rw [hparsed] at h
      cases h
    | some reports =>
      rw [hparsed] at h
      dsimp only at h
      split at h
      · cases h
      · split at h
        · cases h
        · split at h
          · cases h
          · cases h
            obtain ⟨husable, -⟩ := hidReportsParse_usable hparsed
            refine ⟨fun id => ?_, fun id => ?_, ?_, ?_, ?_⟩
            · dsimp only
              split
              · rename_i hid
                rw [hid, husable.noZero]
                rfl
              · unfold lastReport
                rw [List.length_set, List.length_replicate]
            · rw [List.length_replicate]
              exact input_le_maxLen husable id
            · rw [List.length_replicate, List.length_replicate]
              exact Nat.le_max_left _ _
            · rw [List.length_replicate]
              exact Nat.le_max_right _ _
            · rw [List.length_replicate]
              exact (hidDescriptor_le hparsed).trans (Nat.le_max_right _ _)

theorem memcpy_ok {dst src : Bytes} {n : Nat} (hdst : n ≤ dst.length) (hsrc : n ≤ src.length) :
    ∃ buf, memcpy dst src n = .ok buf ∧ buf.length = dst.length := by
  refine ⟨src.take n ++ dst.drop n, if_pos ⟨hdst, hsrc⟩, ?_⟩
  rw [List.length_append, List.length_take_of_le hsrc, List.length_drop]
  omega

/-! ## Control requests -/

/-- A report that the host sends with more than the buffer holds. -/
structure LongReport (hid : IphoneHid) (ctrl : CtrlRequest) : Prop where
  enabled : hid.enabled = true
  requestType : ctrl.bRequestType = 0x21
  setReport : ctrl.bRequest = 0x09
  output : ctrl.wValue.toNat / 256 = 2
  declared : hid.reports.output ctrl.wValue.toUInt8 ≠ 0
  long : hid.ctrlReq.buf.length < ctrl.wLength.toNat

/-- **Overlong**: such a report, when the request is taken. -/
def Overlong (hid : IphoneHid) : Event → Prop
  | .setup ctrl _ => hid.stopped = false ∧ hid.ctrlPending = false ∧ LongReport hid ctrl
  | _ => False

/-- The buffers are kept. -/
structure Kept (hid next : IphoneHid) : Prop where
  sized : Sized next
  room : next.ctrlReq.buf.length = hid.ctrlReq.buf.length

/-- **A request is answered** with a length that its buffer has room for, but for a long report. -/
structure Answered (hid : IphoneHid) (ctrl : CtrlRequest) (answer : Option IphoneHid) : Prop where
  kept : ∀ next, answer = some next → Kept hid next ∧
    (¬LongReport hid ctrl → next.ctrlReq.length ≤ next.ctrlReq.buf.length)
  long : LongReport hid ctrl → ∃ next, answer = some next ∧
    next.ctrlReq.buf.length < next.ctrlReq.length

theorem answered_none {ctrl : CtrlRequest} (h : ¬LongReport hid ctrl) : Answered hid ctrl none :=
  ⟨nofun, fun hlong => absurd hlong h⟩

theorem answered_some {ctrl : CtrlRequest} {next : IphoneHid} (h : ¬LongReport hid ctrl)
    (hkept : Kept hid next) (hlength : next.ctrlReq.length ≤ next.ctrlReq.buf.length) :
    Answered hid ctrl (some next) := by
  refine ⟨?_, fun hlong => absurd hlong h⟩
  rintro _ ⟨⟩
  exact ⟨hkept, fun _ => hlength⟩

/-- **A copied answer** that both buffers hold. -/
theorem answer_spec (h : Sized hid) {ctrl : CtrlRequest} (hshort : ¬LongReport hid ctrl)
    {src : Bytes} {length : Nat} (hbuf : length ≤ hid.ctrlReq.buf.length)
    (hsrc : length ≤ src.length) :
    ∃ answer, hid.answer src length = .ok answer ∧ Answered hid ctrl answer := by
  obtain ⟨buf, hcopy, hlength⟩ := memcpy_ok hbuf hsrc
  refine ⟨some { hid with ctrlReq := { hid.ctrlReq with buf, length } }, ?_, ?_⟩
  · unfold IphoneHid.answer
    rw [hcopy]
    rfl
  · refine answered_some hshort ⟨⟨h.last, h.inReq, ?_, ?_, ?_⟩, hlength⟩ ?_
    · show _ ≤ buf.length
      rw [hlength]
      exact h.ctrlReq
    · show _ ≤ buf.length
      rw [hlength]
      exact h.reportDesc
    · show _ ≤ buf.length
      rw [hlength]
      exact h.hidDesc
    · show length ≤ buf.length
      rw [hlength]
      exact hbuf

/-- **The switch over the requests.** -/
theorem request_spec (h : Sized hid) (ctrl : CtrlRequest) :
    ∃ answer, hid.request ctrl = .ok answer ∧ Answered hid ctrl answer := by
  have hone : 1 ≤ hid.ctrlReq.buf.length := Nat.le_trans (by decide) h.hidDesc
  unfold IphoneHid.request
  dsimp only
  split
  · rename_i hout
    split
    · rename_i hdisabled
      refine ⟨none, rfl, answered_none fun hlong => ?_⟩
      rw [hlong.enabled] at hdisabled
      cases hdisabled
    · rename_i henabled
      split
      · rename_i hset
        split
        · rename_i hrefused
          exact ⟨none, rfl, answered_none fun hlong =>
            hrefused.elim (absurd hlong.output) hlong.declared⟩
        · rename_i haccepted
          obtain ⟨hkind, hdeclared⟩ := not_or.mp haccepted
          refine ⟨_, rfl, ?_, fun hlong => ⟨_, rfl, hlong.long⟩⟩
          rintro _ ⟨⟩
          refine ⟨⟨⟨h.last, h.inReq, h.ctrlReq, h.reportDesc, h.hidDesc⟩, rfl⟩, fun hshort => ?_⟩
          by_contra hlong
          exact hshort ⟨by simpa using henabled, hout, hset, Decidable.of_not_not hkind, hdeclared,
            Nat.lt_of_not_le hlong⟩
      · rename_i hother
        have hshort : ¬LongReport hid ctrl := fun hlong => hother hlong.setReport
        split
        · split
          · exact ⟨none, rfl, answered_none hshort⟩
          · exact ⟨_, rfl, answered_some hshort
              ⟨⟨h.last, h.inReq, h.ctrlReq, h.reportDesc, h.hidDesc⟩, rfl⟩ (Nat.zero_le _)⟩
        · exact ⟨none, rfl, answered_none hshort⟩
  · rename_i hin
    have hshort : ¬LongReport hid ctrl := fun hlong => hin hlong.requestType
    split
    · split
      · exact ⟨none, rfl, answered_none hshort⟩
      · split
        · split
          · exact ⟨none, rfl, answered_none hshort⟩
          · refine answer_spec h hshort ?_ ?_
            · exact (Nat.min_le_right _ _).trans ((h.inReq _).trans h.ctrlReq)
            · rw [h.last]
              exact Nat.min_le_right _ _
        · split
          · split
            · exact ⟨none, rfl, answered_none hshort⟩
            · exact answer_spec h hshort hone (Nat.le_refl 1)
          · exact ⟨none, rfl, answered_none hshort⟩
    · split
      · split
        · exact ⟨none, rfl, answered_none hshort⟩
        · split
          · exact answer_spec h hshort ((Nat.min_le_right _ _).trans h.hidDesc)
              (Nat.min_le_right _ _)
          · split
            · exact answer_spec h hshort ((Nat.min_le_right _ _).trans h.reportDesc)
                (Nat.min_le_right _ _)
            · exact ⟨none, rfl, answered_none hshort⟩
      · exact ⟨none, rfl, answered_none hshort⟩

/-! ## All the calls -/

/-- **Inside**: the copies of a step stay in their buffers, and so does what it queues. -/
def Inside (hid : IphoneHid) (event : Event) : Prop :=
  ∃ next queued, transfer hid event = .ok (next, queued) ∧
    ∀ q, queued = some q → q.length ≤ q.room

/-- **A step** keeps the buffers; it is inside them unless it is overlong. -/
theorem transfer_spec (h : Sized hid) (event : Event) :
    ∃ next queued, transfer hid event = .ok (next, queued) ∧ Sized next ∧
      ((∀ q, queued = some q → q.length ≤ q.room) ↔ ¬Overlong hid event) := by
  have hnothing : (∀ q : Queued, none = some q → q.length ≤ q.room) ↔ ¬False :=
    ⟨fun _ => not_false, fun _ => nofun⟩
  cases event with
  | setup ctrl queue =>
    unfold transfer setup Overlong
    dsimp only
    by_cases hbusy : (hid.stopped || hid.ctrlPending) = true
    · rw [if_pos hbusy]
      refine ⟨hid, none, rfl, h, fun _ hover => ?_, fun _ => nofun⟩
      rw [hover.1, hover.2.1] at hbusy
      cases hbusy
    · rw [if_neg hbusy]
      obtain ⟨hstopped, hpending⟩ := Bool.or_eq_false_iff.mp (Bool.eq_false_of_not_eq_true hbusy)
      have h' : Sized { hid with outputId := 0 } :=
        ⟨h.last, h.inReq, h.ctrlReq, h.reportDesc, h.hidDesc⟩
      have hsame : LongReport { hid with outputId := 0 } ctrl ↔ LongReport hid ctrl :=
        ⟨fun l => ⟨l.enabled, l.requestType, l.setReport, l.output, l.declared, l.long⟩,
          fun l => ⟨l.enabled, l.requestType, l.setReport, l.output, l.declared, l.long⟩⟩
      obtain ⟨answer, hanswer, hkept, hlong⟩ := request_spec h' ctrl
      rw [hanswer, ok_bind]
      cases answer with
      | none =>
        refine ⟨_, none, rfl, h', fun _ hover => ?_, fun _ => nofun⟩
        obtain ⟨next, hnext, -⟩ := hlong (hsame.mpr hover.2.2)
        cases hnext
      | some next =>
        obtain ⟨⟨hsized, -⟩, hroom⟩ := hkept next rfl
        refine ⟨_, _, rfl, ⟨hsized.last, hsized.inReq, hsized.ctrlReq, hsized.reportDesc,
          hsized.hidDesc⟩, fun hinside hover => ?_, fun hover => ?_⟩
        · obtain ⟨_, ⟨⟩, hmore⟩ := hlong (hsame.mpr hover.2.2)
          exact absurd (hinside _ rfl) (Nat.not_le_of_lt hmore)
        · rintro _ ⟨⟩
          exact hroom fun hreport => hover ⟨hstopped, hpending, hsame.mp hreport⟩
  | submitReport report queue =>
    unfold transfer submitReport Overlong
    dsimp only
    split
    · exact ⟨hid, none, rfl, h, hnothing⟩
    · split
      · exact ⟨hid, none, rfl, h, hnothing⟩
      · rename_i hlen
        have hlen := Decidable.of_not_not hlen
        have hin : report.len ≤ hid.inReq.buf.length := hlen ▸ h.inReq report.reportId
        have hlast : report.len ≤ (hid.last report.reportId).length := by rw [h.last, hlen]
        obtain ⟨stored, hstored, hstoredLength⟩ := memcpy_ok hlast report.holds
        obtain ⟨buf, hbuf, hbufLength⟩ := memcpy_ok hin report.holds
        rw [hstored, ok_bind, hbuf, ok_bind]
        refine ⟨_, _, rfl, ⟨fun id => ?_, fun id => ?_, ?_, h.reportDesc, h.hidDesc⟩,
          fun _ => not_false, fun _ => ?_⟩
        · dsimp only
          split
          · rename_i hid
            rw [hstoredLength, hid]
            exact h.last _
          · exact h.last id
        · show _ ≤ buf.length
          rw [hbufLength]
          exact h.inReq id
        · show buf.length ≤ _
          rw [hbufLength]
          exact h.ctrlReq
        · rintro _ ⟨⟩
          show report.len ≤ buf.length
          rw [hbufLength]
          exact hin
  | inComplete =>
    exact ⟨_, none, rfl, ⟨h.last, h.inReq, h.ctrlReq, h.reportDesc, h.hidDesc⟩, hnothing⟩
  | controlComplete data =>
    have hlength : (data.take hid.ctrlReq.buf.length ++
        hid.ctrlReq.buf.drop data.length).length = hid.ctrlReq.buf.length := by
      rw [List.length_append, List.length_take, List.length_drop]
      omega
    refine ⟨_, none, rfl, ⟨h.last, h.inReq, ?_, ?_, ?_⟩, hnothing⟩
    · exact Nat.le_trans h.ctrlReq (Nat.le_of_eq hlength.symm)
    · exact Nat.le_trans h.reportDesc (Nat.le_of_eq hlength.symm)
    · exact Nat.le_trans h.hidDesc (Nat.le_of_eq hlength.symm)
  | enable ret =>
    exact ⟨_, none, rfl, ⟨h.last, h.inReq, h.ctrlReq, h.reportDesc, h.hidDesc⟩, hnothing⟩
  | disable =>
    exact ⟨_, none, rfl, ⟨h.last, h.inReq, h.ctrlReq, h.reportDesc, h.hidDesc⟩, hnothing⟩
  | stop =>
    exact ⟨_, none, rfl, ⟨h.last, h.inReq, h.ctrlReq, h.reportDesc, h.hidDesc⟩, hnothing⟩

theorem step_spec (h : Sized hid) (event : Event) :
    ∃ next, step hid event = some next ∧ Sized next := by
  obtain ⟨next, queued, htransfer, hsized, -⟩ := transfer_spec h event
  refine ⟨next, ?_, hsized⟩
  unfold step
  rw [htransfer]

theorem inside_iff (h : Sized hid) (event : Event) : Inside hid event ↔ ¬Overlong hid event := by
  obtain ⟨next, queued, htransfer, -, hiff⟩ := transfer_spec h event
  rw [← hiff]
  unfold Inside
  rw [htransfer]
  constructor
  · rintro ⟨_, _, ⟨⟩, hinside⟩
    exact hinside
  · exact fun hinside => ⟨next, queued, rfl, hinside⟩

/-- **No order of calls** leads to a copy that goes out of a buffer. -/
theorem run_ok (h : Sized hid) (events : List Event) :
    ∃ last, Run.run step hid events = some last ∧ Sized last := by
  induction events generalizing hid with
  | nil => exact ⟨hid, rfl, h⟩
  | cons event events ih =>
    obtain ⟨next, hnext, hsized⟩ := step_spec h event
    obtain ⟨last, hlast, hkept⟩ := ih hsized
    exact ⟨last, Run.run_cons_eq_some.mpr ⟨next, hnext, hlast⟩, hkept⟩

/-- **Transfers and their buffers.** Every run of a function that was bound goes on, with all copies
inside their buffers; what is queued fits in every run without an overlong report, and in no other
one. -/
theorem transfers_inside_iff {res : Resources} {reportDesc : Bytes}
    (hbind : Gadget.bind res reportDesc = .ok hid) (events : List Event) :
    (∃ last, Run.run step hid events = some last) ∧
      (Run.AllSteps step Inside hid events ↔
        Run.AllSteps step (fun hid event => ¬Overlong hid event) hid events) := by
  have hsized := bind_sized hbind
  constructor
  · obtain ⟨last, hlast, -⟩ := run_ok hsized events
    exact ⟨last, hlast⟩
  · refine Run.allSteps_iff_of_invariant Sized (fun _ event h => inside_iff h event) ?_ hsized
    intro s event t hs _ ht
    obtain ⟨next, hnext, hkept⟩ := step_spec hs event
    cases hnext.symm.trans ht
    exact hkept

/-- What is bound for `reportDescriptor`: 768 bytes for a control request, and six for the report
13 of the host. -/
theorem bind_reportDescriptor : ∃ hid, Gadget.bind {} reportDescriptor = .ok hid ∧
    hid.stopped = false ∧ hid.ctrlPending = false ∧ hid.reports.output 13 = 6 ∧
    hid.ctrlReq.buf.length = 768 := by
  have h : (Gadget.bind {} reportDescriptor).toOption.map (fun hid => (hid.stopped,
      hid.ctrlPending, hid.reports.output 13, hid.ctrlReq.buf.length)) =
      some (false, false, 6, 768) := by
    decide +kernel
  cases hbind : Gadget.bind {} reportDescriptor with
  | error e =>
    rw [hbind] at h
    cases h
  | ok hid =>
    rw [hbind] at h
    have heq := Option.some.inj h
    simp only [Prod.mk.injEq] at heq
    exact ⟨hid, rfl, heq⟩

/-- A report of the length that its descriptor says. -/
theorem transfers_inside_iff_setReport : ∃ hid, Gadget.bind {} reportDescriptor = .ok hid ∧
    Run.AllSteps step Inside hid [.enable 0, .setup ⟨0x21, 0x09, 0x020d, 2, 6⟩ 0] := by
  obtain ⟨hid, hbind, -, -, -, hroom⟩ := bind_reportDescriptor
  refine ⟨hid, hbind, (transfers_inside_iff hbind _).2.mpr ⟨not_false, ?_⟩⟩
  rintro _ ⟨⟩
  refine ⟨fun hover => ?_, fun _ _ => trivial⟩
  have hlong : hid.ctrlReq.buf.length < 6 := hover.2.2.long
  omega

/-- **The host's length is taken** for the buffer's: a report of 4096 bytes is queued where there
is room for 768. -/
theorem setReport_not_inside : ∃ hid, Gadget.bind {} reportDescriptor = .ok hid ∧
    ¬Run.AllSteps step Inside hid [.enable 0, .setup ⟨0x21, 0x09, 0x020d, 2, 4096⟩ 0] := by
  obtain ⟨hid, hbind, hstopped, hpending, houtput, hroom⟩ := bind_reportDescriptor
  refine ⟨hid, hbind, fun hall => ?_⟩
  have hinside := (hall.2 _ rfl).1
  obtain ⟨_, ⟨⟩, hsized⟩ := step_spec (bind_sized hbind) (.enable 0)
  refine (inside_iff hsized _).mp hinside ⟨hstopped, hpending, ?_⟩
  refine ⟨?_, rfl, rfl, rfl, ?_, ?_⟩
  · show (!hid.stopped && decide ((0 : Int) = 0)) = true
    rw [hstopped]
    rfl
  · show hid.reports.output 13 ≠ 0
    rw [houtput]
    decide
  · show hid.ctrlReq.buf.length < 4096
    omega

end Catplay.Analysis.Iap2Usb.Gadget
