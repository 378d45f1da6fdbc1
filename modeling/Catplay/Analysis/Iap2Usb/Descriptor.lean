import Catplay.Analysis.Iap2Usb.Framing
import Catplay.Model.Iap2Usb.HidParse

/-!
# What a report descriptor declares

The parser runs over every byte string without a read out of bounds and without a number that does
not fit, and answers as the parser over the rest of the descriptor does (`parse_eq`). A descriptor
is a sequence of items (`DescItem`). The global items set the state that a main item is declared
with, and a size that is stored sums up what the main items of its report declare
(`hidReportsParse_exact`).
-/

set_option autoImplicit false

namespace Catplay.Analysis.Iap2Usb

open Catplay.Library.Checked Catplay.Model.Iap2Usb

/-! ## The position, the numbers and the arrays -/

theorem fits_ok {width n : Nat} (h : n < 2 ^ width) : HidParse.fits width n = .ok n := if_pos h

theorem minus_ok {m n : Nat} (h : n ≤ m) : HidParse.minus m n = .ok (m - n) := if_pos h

theorem advance_ok {desc : Bytes} {pos count : Nat} (h : pos + count ≤ desc.length) :
    HidParse.advance desc pos count = .ok (pos + count) := if_pos h

theorem index_ok_drop {desc rest : Bytes} {pos : Nat} {b : UInt8} (h : desc.drop pos = b :: rest) :
    (index desc pos : Exec Unit UInt8) = .ok b ∧ desc.drop (pos + 1) = rest ∧
      pos < desc.length := by
  have hlt : pos < desc.length := by
    by_contra hge
    rw [List.drop_of_length_le (by omega)] at h
    cases h
  have hcons := List.drop_eq_getElem_cons hlt
  rw [h] at hcons
  obtain ⟨hb, hrest⟩ := List.cons.inj hcons
  refine ⟨?_, hrest.symm, hlt⟩
  unfold index
  rw [List.getElem?_eq_getElem hlt, hb]

theorem itemValue_lt (bytes : Bytes) : itemValue bytes < 256 ^ bytes.length := by
  induction bytes with
  | nil => exact Nat.one_pos
  | cons b bytes ih =>
    have hb := b.toNat_lt
    show b.toNat + 256 * itemValue bytes < 256 ^ (bytes.length + 1)
    rw [Nat.pow_succ]
    omega

/-- **The value of an item** is read without a shift over 32 bits. -/
theorem readValue_eq {desc : Bytes} {n i pos value : Nat} (hpos : pos + n ≤ desc.length)
    (hwidth : i + n ≤ 4) (hvalue : value < 256 ^ i) :
    HidParse.readValue desc n i pos value =
      .ok (value + 256 ^ i * itemValue ((desc.drop pos).take n)) := by
  induction n generalizing i pos value with
  | zero =>
    rw [List.take_zero]
    rfl
  | succ n ih =>
    have hlt : pos < desc.length := by omega
    have hcons := List.drop_eq_getElem_cons hlt
    have hbyte := desc[pos].toNat_lt
    have hshift : desc[pos].toNat <<< (8 * i) = desc[pos].toNat * 256 ^ i := by
      rw [Nat.shiftLeft_eq, Nat.pow_mul]
    have hfits : desc[pos].toNat * 256 ^ i < 2 ^ 32 := by
      calc desc[pos].toNat * 256 ^ i
          < 256 * 256 ^ i := Nat.mul_lt_mul_of_pos_right hbyte (Nat.pow_pos (by decide))
        _ = 256 ^ (i + 1) := by rw [Nat.pow_succ, Nat.mul_comm]
        _ ≤ 256 ^ 4 := Nat.pow_le_pow_right (by decide) (by omega)
    have hor : value ||| desc[pos].toNat * 256 ^ i = value + desc[pos].toNat * 256 ^ i := by
      have hpow : (256 : Nat) ^ i = 2 ^ (8 * i) := by rw [Nat.pow_mul]
      rw [hpow] at hvalue ⊢
      rw [Nat.or_comm, Nat.mul_comm, ← Nat.two_pow_add_eq_or_of_lt hvalue, Nat.add_comm]
    have hnext : value + desc[pos].toNat * 256 ^ i < 256 ^ (i + 1) := by
      rw [Nat.pow_succ, Nat.mul_comm _ 256]
      have := Nat.mul_le_mul_right (256 ^ i) (Nat.le_of_lt_succ hbyte)
      omega
    unfold HidParse.readValue
    rw [(index_ok_drop hcons).1, ok_bind, hshift, fits_ok hfits, ok_bind, hor,
      ih (by omega) (by omega) hnext, hcons, List.take_succ_cons]
    show Except.ok _ = Except.ok (value + 256 ^ i *
      (desc[pos].toNat + 256 * itemValue ((desc.drop (pos + 1)).take n)))
    rw [Nat.pow_succ, Nat.mul_add, Nat.mul_comm (256 ^ i) desc[pos].toNat, ← Nat.add_assoc,
      ← Nat.mul_assoc]

/-- Globals of 32 bits whose id is an index of the fields. -/
structure Bounded (g : Globals) : Prop where
  size : g.size < 2 ^ 32
  count : g.count < 2 ^ 32
  id : g.id < 256

/-- What the parser keeps while it runs. -/
structure InRange (parser : Parser) : Prop where
  g : Bounded parser.g
  stack : ∀ g ∈ parser.stack, Bounded g
  depth : parser.stack.length ≤ 32
  fields : ∀ d id, (parser.fields d id).bits ≤ maxBits

theorem inRange_start : InRange {} where
  g := ⟨by decide, by decide, by decide⟩
  stack g hg := by cases hg
  depth := Nat.zero_le 32
  fields _ _ := Nat.zero_le _

variable {parser next : Parser} {desc : Bytes}

/-- **A field.** No product and no sum is over 64 bits. -/
theorem addField_eq (h : InRange parser) (d : Direction) :
    HidParse.addField parser d = orFail (parser.addField d) () ∧
      ∀ next, parser.addField d = some next → InRange next := by
  have hproduct : parser.g.size * parser.g.count < 2 ^ 64 := by
    calc parser.g.size * parser.g.count
        < 2 ^ 32 * 2 ^ 32 := Nat.mul_lt_mul'' h.g.size h.g.count
      _ = 2 ^ 64 := by decide
  have hbits := h.fields d parser.g.id
  have hmax : maxBits < 2 ^ 32 := by decide
  have hid := h.g.id
  unfold HidParse.addField Parser.addField
  rw [fits_ok hproduct, ok_bind]
  dsimp only
  by_cases hlarge : parser.g.size * parser.g.count > maxBits
  · rw [if_pos hlarge, if_pos (.inl hlarge)]
    exact ⟨rfl, fun next hnext => by cases hnext⟩
  · rw [if_neg hlarge, if_neg (Nat.not_le_of_lt hid), minus_ok (by omega), ok_bind]
    by_cases hsum : (parser.fields d parser.g.id).bits >
        maxBits - parser.g.size * parser.g.count
    · rw [if_pos hsum, if_pos (.inr hsum)]
      exact ⟨rfl, fun next hnext => by cases hnext⟩
    · rw [if_neg hsum, if_neg (not_or.mpr ⟨hlarge, hsum⟩), fits_ok (by omega), ok_bind]
      refine ⟨rfl, ?_⟩
      rintro next ⟨⟩
      refine ⟨h.g, h.stack, h.depth, fun d' id => ?_⟩
      dsimp only
      split
      · dsimp only
        omega
      · exact h.fields d' id

/-- **One short item.** -/
theorem item_eq (h : InRange parser) (tag : UInt8) {value : Nat} (hvalue : value < 2 ^ 32) :
    HidParse.item parser tag value = orFail (parser.item tag value) () ∧
      ∀ next, parser.item tag value = some next → InRange next := by
  unfold HidParse.item Parser.item
  by_cases h04 : tag = 0x04
  · rw [if_pos h04, if_pos h04]
    refine ⟨rfl, ?_⟩
    rintro next ⟨⟩
    exact ⟨⟨h.g.size, h.g.count, h.g.id⟩, h.stack, h.depth, h.fields⟩
  rw [if_neg h04, if_neg h04]
  by_cases h74 : tag = 0x74
  · rw [if_pos h74, if_pos h74]
    refine ⟨rfl, ?_⟩
    rintro next ⟨⟩
    exact ⟨⟨hvalue, h.g.count, h.g.id⟩, h.stack, h.depth, h.fields⟩
  rw [if_neg h74, if_neg h74]
  by_cases h84 : tag = 0x84
  · rw [if_pos h84, if_pos h84]
    by_cases hid : value = 0 ∨ value > 255
    · rw [if_pos hid, if_pos hid]
      exact ⟨rfl, fun next hnext => by cases hnext⟩
    · rw [if_neg hid, if_neg hid]
      refine ⟨rfl, ?_⟩
      rintro next ⟨⟩
      exact ⟨⟨h.g.size, h.g.count, by dsimp only; omega⟩, h.stack, h.depth, h.fields⟩
  rw [if_neg h84, if_neg h84]
  by_cases h94 : tag = 0x94
  · rw [if_pos h94, if_pos h94]
    refine ⟨rfl, ?_⟩
    rintro next ⟨⟩
    exact ⟨⟨h.g.size, hvalue, h.g.id⟩, h.stack, h.depth, h.fields⟩
  rw [if_neg h94, if_neg h94]
  have hdepth := h.depth
  by_cases ha4 : tag = 0xa4
  · rw [if_pos ha4, if_pos ha4]
    by_cases hfull : parser.stack.length = 32
    · rw [if_pos hfull, if_pos hfull]
      exact ⟨rfl, fun next hnext => by cases hnext⟩
    · rw [if_neg hfull, if_neg hfull, if_pos (by omega)]
      refine ⟨rfl, ?_⟩
      rintro next ⟨⟩
      refine ⟨h.g, fun g hg => ?_, by dsimp only [List.length_cons]; omega, h.fields⟩
      rcases List.mem_cons.mp hg with rfl | hg
      · exact h.g
      · exact h.stack g hg
  rw [if_neg ha4, if_neg ha4]
  by_cases hb4 : tag = 0xb4
  · rw [if_pos hb4, if_pos hb4]
    cases hstack : parser.stack with
    | nil => exact ⟨rfl, fun next hnext => by cases hnext⟩
    | cons g stack =>
      have hall := h.stack
      rw [hstack] at hall hdepth
      refine ⟨rfl, ?_⟩
      rintro next ⟨⟩
      exact ⟨hall g List.mem_cons_self, fun g' hg => hall g' (List.mem_cons_of_mem g hg),
        Nat.le_of_succ_le hdepth, h.fields⟩
  rw [if_neg hb4, if_neg hb4]
  by_cases h80 : tag = 0x80
  · rw [if_pos h80, if_pos h80]
    exact addField_eq h .input
  rw [if_neg h80, if_neg h80]
  by_cases h90 : tag = 0x90
  · rw [if_pos h90, if_pos h90]
    exact addField_eq h .output
  rw [if_neg h90, if_neg h90]
  refine ⟨rfl, ?_⟩
  rintro next ⟨⟩
  exact h

/-- The bytes of the value of a short item. -/
def dataLength (itemPrefix : UInt8) : Nat :=
  if itemPrefix &&& 3 = 3 then 4 else (itemPrefix &&& 3).toNat

theorem dataLength_le (itemPrefix : UInt8) : dataLength itemPrefix ≤ 4 := by
  unfold dataLength
  split
  · exact Nat.le_refl 4
  · exact Nat.le_trans (by rw [UInt8.toNat_and]; exact Nat.and_le_right) (by decide : 3 ≤ 4)

/-- **The loop over the items** ends, reads inside the descriptor and finds what the list gives. -/
theorem parseLoop_eq {fuel pos : Nat} (h : InRange parser) (hpos : pos ≤ desc.length)
    (hfuel : desc.length - pos < fuel) :
    HidParse.parseLoop desc parser pos = orFail (parseItems fuel parser (desc.drop pos)) () ∧
      ∀ next, parseItems fuel parser (desc.drop pos) = some next → InRange next := by
  induction fuel generalizing parser pos with
  | zero => exact absurd hfuel (Nat.not_lt_zero _)
  | succ fuel ih =>
    rw [HidParse.parseLoop]
    by_cases hlt : pos < desc.length
    · have hcons := List.drop_eq_getElem_cons hlt
      obtain ⟨hindex, -, -⟩ := index_ok_drop hcons
      rw [dif_pos hlt, hindex, ok_bind, hcons]
      generalize desc[pos] = itemPrefix
      have hminus : HidParse.minus desc.length (pos + 1) = .ok (desc.length - (pos + 1)) :=
        minus_ok hlt
      unfold parseItems
      by_cases hlong : itemPrefix = 0xfe
      · rw [if_pos hlong, if_pos hlong, hminus, ok_bind]
        by_cases hshort : desc.length - (pos + 1) < 2
        · rw [if_pos hshort]
          have hlength : (desc.drop (pos + 1)).length = desc.length - (pos + 1) :=
            List.length_drop ..
          cases hrest : desc.drop (pos + 1) with
          | nil => exact ⟨rfl, fun next hnext => by cases hnext⟩
          | cons size rest =>
            cases rest with
            | nil => exact ⟨rfl, fun next hnext => by cases hnext⟩
            | cons tag rest =>
              rw [hrest, List.length_cons, List.length_cons] at hlength
              omega
        · have hin : pos + 1 < desc.length := by omega
          have hcons1 := List.drop_eq_getElem_cons hin
          have hcons2 := List.drop_eq_getElem_cons (show pos + 1 + 1 < desc.length by omega)
          have hroom : (desc.drop (pos + 1 + 1 + 1)).length = desc.length - (pos + 1) - 2 := by
            rw [List.length_drop]
            omega
          rw [if_neg hshort, (index_ok_drop hcons1).1, ok_bind, minus_ok (by omega), ok_bind,
            hcons1, hcons2]
          generalize desc[pos + 1] = size
          dsimp only
          rw [hroom]
          by_cases hsize : desc.length - (pos + 1) - 2 < size.toNat
          · rw [if_pos hsize, if_pos hsize]
            exact ⟨rfl, fun next hnext => by cases hnext⟩
          · rw [if_neg hsize, if_neg hsize, advance_ok (by omega), ok_bind, List.drop_drop,
              show pos + 1 + 1 + 1 + size.toNat = pos + (1 + (2 + size.toNat)) by omega]
            exact ih h (by omega) (by omega)
      · rw [if_neg hlong, if_neg hlong, hminus, ok_bind]
        have hle := dataLength_le itemPrefix
        unfold dataLength at hle
        dsimp only
        generalize (if itemPrefix &&& 3 = 3 then 4 else (itemPrefix &&& 3).toNat) = n at hle ⊢
        rw [List.length_drop]
        by_cases hmissing : n > desc.length - (pos + 1)
        · rw [if_pos hmissing, if_pos hmissing]
          exact ⟨rfl, fun next hnext => by cases hnext⟩
        · have hvalue : itemValue ((desc.drop (pos + 1)).take n) < 2 ^ 32 := by
            have hbound := itemValue_lt ((desc.drop (pos + 1)).take n)
            have hlength : ((desc.drop (pos + 1)).take n).length ≤ 4 :=
              (List.length_take_le n _).trans hle
            exact hbound.trans_le (Nat.pow_le_pow_right (by decide) hlength)
          rw [if_neg hmissing, if_neg hmissing, readValue_eq (by omega) (by omega) (by decide),
            ok_bind, Nat.zero_add, Nat.pow_zero, Nat.one_mul, List.drop_drop,
            show pos + 1 + n = pos + (1 + n) by omega]
          obtain ⟨hitem, hnext⟩ := item_eq h (itemPrefix &&& 0xfc) hvalue
          rw [hitem]
          cases hparsed : parser.item (itemPrefix &&& 0xfc)
              (itemValue ((desc.drop (pos + 1)).take n)) with
          | none => exact ⟨rfl, fun next hnone => by cases hnone⟩
          | some parsed =>
            show (HidParse.advance desc pos (1 + n) >>= fun _ =>
              HidParse.parseLoop desc parsed (pos + (1 + n))) = _ ∧ _
            rw [advance_ok (by omega), ok_bind]
            exact ih (hnext parsed hparsed) (by omega) (by omega)
    · rw [dif_neg hlt, List.drop_of_length_le (by omega)]
      refine ⟨rfl, ?_⟩
      rintro next ⟨⟩
      exact h

/-! ## The sizes -/

/-- The sizes of a direction. -/
def sizesOf (reports : HidReports) : Direction → Sizes
  | .input => reports.input
  | .output => reports.output

def foundOf (found : Bool × Bool) : Direction → Bool
  | .input => found.1
  | .output => found.2

theorem mem_allEntries {d : Direction} {id : Nat} :
    (d, id) ∈ HidParse.allEntries ↔ id < 256 := by
  unfold HidParse.allEntries allIds
  rw [List.mem_append, List.mem_map, List.mem_map]
  cases d with
  | input =>
    constructor
    · rintro (⟨i, hi, heq⟩ | ⟨i, hi, heq⟩)
      · cases heq
        exact List.mem_range.mp hi
      · cases heq
    · intro h
      exact .inl ⟨id, List.mem_range.mpr h, rfl⟩
  | output =>
    constructor
    · rintro (⟨i, hi, heq⟩ | ⟨i, hi, heq⟩)
      · cases heq
      · cases heq
        exact List.mem_range.mp hi
    · intro h
      exact .inr ⟨id, List.mem_range.mpr h, rfl⟩

/-- What the loops leave behind the entries gone through: the sizes of the vendor fields among
them, and whether there was one. -/
structure Stored (parser : Parser) (entries : List (Direction × Nat))
    (state next : HidReports × Bool × Bool) : Prop where
  formed : ∀ entry ∈ entries, (parser.fields entry.1 entry.2).wellFormed entry.2 = true
  size : ∀ d id, sizesOf next.1 d id =
    if (d, id.toNat) ∈ entries ∧ (parser.fields d id.toNat).vendor = true then
      (parser.fields d id.toNat).reportSize
    else sizesOf state.1 d id
  found : ∀ d, foundOf next.2 d = true ↔ foundOf state.2 d = true ∨
    ∃ entry ∈ entries, entry.1 = d ∧ (parser.fields entry.1 entry.2).vendor = true

/-- One round of the loops stores the field, or refuses it. -/
theorem storeField_spec (parser : Parser) (state : HidReports × Bool × Bool)
    (entry : Direction × Nat) :
    (HidParse.storeField parser state entry = fail () ∧
      (parser.fields entry.1 entry.2).wellFormed entry.2 = false) ∨
    ∃ next, HidParse.storeField parser state entry = .ok next ∧
      Stored parser [entry] state next := by
  obtain ⟨d, id⟩ := entry
  unfold HidParse.storeField Field.wellFormed
  dsimp only
  cases hvendor : (parser.fields d id).vendor with
  | false =>
    right
    refine ⟨state, rfl, fun entry hentry => ?_, fun d' i => ?_, fun d' => ⟨.inl, ?_⟩⟩
    · obtain rfl := List.mem_singleton.mp hentry
      unfold Field.wellFormed
      rw [hvendor]
      rfl
    · refine (if_neg ?_).symm
      rintro ⟨hmem, hv⟩
      cases List.mem_singleton.mp hmem
      rw [hvendor] at hv
      cases hv
    · rintro (h | ⟨entry, hentry, -, hv⟩)
      · exact h
      · cases List.mem_singleton.mp hentry
        rw [hvendor] at hv
        cases hv
  | true =>
    by_cases hrefused : id = 0 ∨ (parser.fields d id).bits % 8 ≠ 0 ∨
        (parser.fields d id).bits < 16 ∨ (parser.fields d id).bits > maxBits
    · left
      rw [if_pos hrefused]
      refine ⟨rfl, ?_⟩
      rw [← or_assoc, ← or_assoc] at hrefused
      simpa only [Bool.not_true, Bool.false_or, Bool.not_eq_false', Bool.or_eq_true,
        decide_eq_true_eq] using hrefused
    · right
      have hfits : 1 + (parser.fields d id).bits / 8 < 2 ^ 16 := by
        have hmax : maxBits = 65534 * 8 := rfl
        omega
      have hsize : (parser.fields d id).reportSize =
          UInt16.ofNat (1 + (parser.fields d id).bits / 8) := by
        unfold Field.reportSize
        rw [hvendor]
        rfl
      have hformed : ∀ entry ∈ [(d, id)],
          (parser.fields entry.1 entry.2).wellFormed entry.2 = true := by
        intro entry hentry
        obtain rfl := List.mem_singleton.mp hentry
        unfold Field.wellFormed
        rw [← or_assoc, ← or_assoc] at hrefused
        simpa only [hvendor, Bool.not_true, Bool.false_or, Bool.not_eq_true', Bool.or_eq_false_iff,
          decide_eq_false_iff_not, not_or] using hrefused
      have hhere : ∀ d' (i : UInt8), ((d', i.toNat) ∈ [(d, id)] ∧
          (parser.fields d' i.toNat).vendor = true) ↔ d' = d ∧ i.toNat = id := by
        intro d' i
        rw [List.mem_singleton, Prod.mk.injEq]
        constructor
        · exact And.left
        · rintro ⟨rfl, rfl⟩
          exact ⟨⟨rfl, rfl⟩, hvendor⟩
      rw [if_neg hrefused, fits_ok hfits]
      cases d with
      | input =>
        refine ⟨_, rfl, hformed, fun d' i => ?_, fun d' => ?_⟩
        · rw [if_congr (hhere d' i) rfl rfl]
          cases d' with
          | input =>
            show HidParse.setSize state.1.input id _ i = _
            unfold HidParse.setSize
            by_cases hi : i.toNat = id
            · rw [if_pos hi, if_pos ⟨rfl, hi⟩, hi, hsize]
            · rw [if_neg hi, if_neg fun h => hi h.2]
              rfl
          | output => exact (if_neg fun h => by cases h.1).symm
        · cases d' with
          | input =>
            exact ⟨fun _ => .inr ⟨_, List.mem_singleton_self _, rfl, hvendor⟩, fun _ => rfl⟩
          | output =>
            refine ⟨.inl, ?_⟩
            rintro (h | ⟨entry, hentry, hd, -⟩)
            · exact h
            · cases List.mem_singleton.mp hentry
              cases hd
      | output =>
        refine ⟨_, rfl, hformed, fun d' i => ?_, fun d' => ?_⟩
        · rw [if_congr (hhere d' i) rfl rfl]
          cases d' with
          | output =>
            show HidParse.setSize state.1.output id _ i = _
            unfold HidParse.setSize
            by_cases hi : i.toNat = id
            · rw [if_pos hi, if_pos ⟨rfl, hi⟩, hi, hsize]
            · rw [if_neg hi, if_neg fun h => hi h.2]
              rfl
          | input => exact (if_neg fun h => by cases h.1).symm
        · cases d' with
          | output =>
            exact ⟨fun _ => .inr ⟨_, List.mem_singleton_self _, rfl, hvendor⟩, fun _ => rfl⟩
          | input =>
            refine ⟨.inl, ?_⟩
            rintro (h | ⟨entry, hentry, hd, -⟩)
            · exact h
            · cases List.mem_singleton.mp hentry
              cases hd

/-- **The loops over the directions and the ids.** -/
theorem storeFields_spec (parser : Parser) (entries : List (Direction × Nat))
    (state : HidReports × Bool × Bool) :
    (entries.foldlM (HidParse.storeField parser) state = fail () ∧
      ∃ entry ∈ entries, (parser.fields entry.1 entry.2).wellFormed entry.2 = false) ∨
    ∃ next, entries.foldlM (HidParse.storeField parser) state = .ok next ∧
      Stored parser entries state next := by
  induction entries generalizing state with
  | nil =>
    right
    refine ⟨state, rfl, ⟨fun entry hentry => (by cases hentry), fun d id => ?_,
      fun d => ⟨.inl, ?_⟩⟩⟩
    · exact (if_neg fun h => by cases h.1).symm
    · rintro (h | ⟨entry, hentry, -⟩)
      · exact h
      · cases hentry
  | cons entry entries ih =>
    rw [List.foldlM_cons]
    rcases storeField_spec parser state entry with ⟨hfail, hbad⟩ | ⟨mid, hok, hone⟩
    · left
      rw [hfail]
      exact ⟨rfl, entry, List.mem_cons_self, hbad⟩
    · rw [hok, ok_bind]
      rcases ih mid with ⟨hfail, bad, hmem, hbad⟩ | ⟨next, hnext, hrest⟩
      · exact .inl ⟨hfail, bad, List.mem_cons_of_mem entry hmem, hbad⟩
      · refine .inr ⟨next, hnext, fun e he => ?_, fun d id => ?_, fun d => ?_⟩
        · rcases List.mem_cons.mp he with rfl | he
          · exact hone.formed e (List.mem_singleton_self e)
          · exact hrest.formed e he
        · rw [hrest.size, hone.size]
          by_cases hlater : (d, id.toNat) ∈ entries ∧ (parser.fields d id.toNat).vendor = true
          · rw [if_pos hlater, if_pos ⟨List.mem_cons_of_mem entry hlater.1, hlater.2⟩]
          · rw [if_neg hlater]
            refine if_congr ?_ rfl rfl
            rw [List.mem_singleton, List.mem_cons]
            constructor
            · rintro ⟨heq, hv⟩
              exact ⟨.inl heq, hv⟩
            · rintro ⟨heq | hmem, hv⟩
              · exact ⟨heq, hv⟩
              · exact absurd ⟨hmem, hv⟩ hlater
        · rw [hrest.found, hone.found, or_assoc]
          refine or_congr_right ?_
          constructor
          · rintro (⟨e, he, hd, hv⟩ | ⟨e, he, hd, hv⟩)
            · exact ⟨e, List.mem_singleton.mp he ▸ List.mem_cons_self, hd, hv⟩
            · exact ⟨e, List.mem_cons_of_mem entry he, hd, hv⟩
          · rintro ⟨e, he, hd, hv⟩
            rcases List.mem_cons.mp he with rfl | he
            · exact .inl ⟨e, List.mem_singleton_self e, hd, hv⟩
            · exact .inr ⟨e, he, hd, hv⟩

/-- The fields that make up reports of both directions. -/
structure Complete (last : Parser) : Prop where
  formed : ∀ d, ∀ id < 256, (last.fields d id).wellFormed id = true
  vendor : ∀ d, ∃ id < 256, (last.fields d id).vendor = true

/-- The sizes of its fields. -/
def reportsOf (last : Parser) : HidReports where
  input id := (last.fields .input id.toNat).reportSize
  output id := (last.fields .output id.toNat).reportSize

/-- What the list of the items gives, once it was gone through. -/
theorem hidReportsParse_of_last {last : Parser}
    (hlast : parseItems (desc.length + 1) {} desc = some last) (hstack : last.stack = []) :
    (Complete last → hidReportsParse desc = some (reportsOf last)) ∧
      (¬Complete last → hidReportsParse desc = none) := by
  have hall : (allIds.all fun id => (last.fields .input id).wellFormed id &&
      (last.fields .output id).wellFormed id) = true ↔
      ∀ d, ∀ id < 256, (last.fields d id).wellFormed id = true := by
    rw [List.all_eq_true]
    constructor
    · intro h d id hid
      have hboth := Bool.and_eq_true _ _ ▸ h id (List.mem_range.mpr hid)
      cases d with
      | input => exact hboth.1
      | output => exact hboth.2
    · intro h id hid
      exact Bool.and_eq_true _ _ ▸ ⟨h .input id (List.mem_range.mp hid),
        h .output id (List.mem_range.mp hid)⟩
  have hany : ∀ d, (allIds.any fun id => (last.fields d id).vendor) = true ↔
      ∃ id < 256, (last.fields d id).vendor = true := by
    intro d
    rw [List.any_eq_true]
    exact exists_congr fun id => and_congr_left fun _ => List.mem_range
  have hunfold : hidReportsParse desc =
      if !(allIds.all fun id => (last.fields .input id).wellFormed id &&
          (last.fields .output id).wellFormed id) then none
      else if !(allIds.any fun id => (last.fields .input id).vendor) then none
      else if !(allIds.any fun id => (last.fields .output id).vendor) then none
      else some (reportsOf last) := by
    unfold hidReportsParse
    rw [hlast]
    exact if_neg (not_not_intro hstack)
  rw [hunfold]
  by_cases hformed : (allIds.all fun id => (last.fields .input id).wellFormed id &&
      (last.fields .output id).wellFormed id) = true
  · rw [hformed]
    by_cases hinput : (allIds.any fun id => (last.fields .input id).vendor) = true
    · rw [hinput]
      by_cases houtput : (allIds.any fun id => (last.fields .output id).vendor) = true
      · rw [houtput]
        refine ⟨fun _ => rfl, fun h => absurd ⟨hall.mp hformed, fun d => ?_⟩ h⟩
        cases d with
        | input => exact (hany .input).mp hinput
        | output => exact (hany .output).mp houtput
      · rw [Bool.eq_false_of_not_eq_true houtput]
        exact ⟨fun h => absurd ((hany .output).mpr (h.vendor .output)) houtput, fun _ => rfl⟩
    · rw [Bool.eq_false_of_not_eq_true hinput]
      exact ⟨fun h => absurd ((hany .input).mpr (h.vendor .input)) hinput, fun _ => rfl⟩
  · rw [Bool.eq_false_of_not_eq_true hformed]
    exact ⟨fun h => absurd (hall.mpr h.formed) hformed, fun _ => rfl⟩

/-- **The parser step by step** answers as the parser over the rest of the descriptor. -/
theorem parse_eq (desc : Bytes) : HidParse.parse desc = orFail (hidReportsParse desc) () := by
  unfold HidParse.parse
  have hloop : HidParse.parseLoop desc {} 0 =
      orFail (parseItems (desc.length + 1) {} (desc.drop 0)) () :=
    (parseLoop_eq inRange_start (Nat.zero_le _) (by omega)).1
  rw [List.drop_zero] at hloop
  rw [hloop]
  cases hlast : parseItems (desc.length + 1) {} desc with
  | none =>
    unfold hidReportsParse
    rw [hlast]
    rfl
  | some last =>
    show (if last.stack ≠ [] then _ else _) = _
    by_cases hstack : last.stack = []
    · obtain ⟨hsome, hnone⟩ := hidReportsParse_of_last hlast hstack
      rw [if_neg (not_not_intro hstack)]
      rcases storeFields_spec last HidParse.allEntries (HidParse.zeroReports, false, false) with
        ⟨hfail, ⟨d, id⟩, hmem, hbad⟩ | ⟨⟨reports, found⟩, hok, hstored⟩
      · have hincomplete : ¬Complete last := by
          intro h
          have hformed := h.formed d id (mem_allEntries.mp hmem)
          rw [hbad] at hformed
          cases hformed
        rw [hfail, hnone hincomplete]
        rfl
      · have hfound : ∀ d, foundOf found d = true ↔
            ∃ id < 256, (last.fields d id).vendor = true := by
          intro d
          rw [hstored.found d]
          constructor
          · rintro (h | ⟨⟨d', id⟩, hmem, rfl, hv⟩)
            · cases d <;> cases h
            · exact ⟨id, mem_allEntries.mp hmem, hv⟩
          · rintro ⟨id, hid, hv⟩
            exact .inr ⟨(d, id), mem_allEntries.mpr hid, rfl, hv⟩
        have hsize : ∀ d (id : UInt8),
            sizesOf reports d id = (last.fields d id.toNat).reportSize := by
          intro d id
          rw [hstored.size]
          by_cases hv : (last.fields d id.toNat).vendor = true
          · exact if_pos ⟨mem_allEntries.mpr id.toNat_lt, hv⟩
          · rw [if_neg fun h => hv h.2]
            unfold Field.reportSize
            rw [if_neg hv]
            cases d <;> rfl
        have hreports : reports = reportsOf last := by
          unfold reportsOf
          rw [← funext (hsize .input), ← funext (hsize .output)]
          rfl
        rw [hok, ok_bind]
        dsimp only
        by_cases hboth : (found.1 && found.2) = true
        · have hcomplete : Complete last := by
            refine ⟨fun d id hid => hstored.formed (d, id) (mem_allEntries.mpr hid), fun d => ?_⟩
            obtain ⟨hinput, houtput⟩ := Bool.and_eq_true _ _ ▸ hboth
            cases d with
            | input => exact (hfound .input).mp hinput
            | output => exact (hfound .output).mp houtput
          rw [if_pos hboth, hsome hcomplete, hreports]
          rfl
        · have hincomplete : ¬Complete last := fun h =>
            hboth (Bool.and_eq_true _ _ ▸ ⟨(hfound .input).mpr (h.vendor .input),
              (hfound .output).mpr (h.vendor .output)⟩)
          rw [if_neg hboth, hnone hincomplete]
          rfl
    · unfold hidReportsParse
      rw [if_pos hstack, hlast]
      show _ = orFail (if last.stack ≠ [] then none else _) ()
      rw [if_pos hstack]
      rfl

/-- **An accepted descriptor** was gone through to its end. -/
theorem hidReportsParse_answers {reports : HidReports} (h : hidReportsParse desc = some reports) :
    ∃ last, parseItems (desc.length + 1) {} desc = some last ∧ last.stack = [] ∧
      Complete last ∧ reports = reportsOf last := by
  cases hlast : parseItems (desc.length + 1) {} desc with
  | none =>
    unfold hidReportsParse at h
    rw [hlast] at h
    cases h
  | some last =>
    by_cases hstack : last.stack = []
    · obtain ⟨hsome, hnone⟩ := hidReportsParse_of_last hlast hstack
      by_cases hcomplete : Complete last
      · rw [hsome hcomplete] at h
        cases h
        exact ⟨last, rfl, hstack, hcomplete, rfl⟩
      · rw [hnone hcomplete] at h
        cases h
    · unfold hidReportsParse at h
      rw [hlast] at h
      have hrefused : (none : Option HidReports) = some reports := (if_pos hstack).symm.trans h
      cases hrefused

/-! ## The items -/

/-- An item: a prefix with its data, or a long item with its tag. -/
inductive DescItem
  | short (itemPrefix : UInt8) (data : Bytes)
  | long (tag : UInt8) (data : Bytes)
  deriving DecidableEq, Repr

def DescItem.bytes : DescItem → Bytes
  | short itemPrefix data => itemPrefix :: data
  | long tag data => 0xfe :: UInt8.ofNat data.length :: tag :: data

/-- The prefix gives the length of the data. -/
def DescItem.WellFormed : DescItem → Prop
  | short itemPrefix data => itemPrefix ≠ 0xfe ∧ data.length = dataLength itemPrefix
  | long _ data => data.length < 256

/-- The globals in force, and the ones that were pushed. -/
abbrev HidState := Globals × List Globals

/-- **The global items** set the state. -/
def DescItem.apply (state : HidState) : DescItem → HidState
  | short itemPrefix data =>
    if itemPrefix &&& 0xfc = 0x04 then ({ state.1 with page := itemValue data }, state.2)
    else if itemPrefix &&& 0xfc = 0x74 then ({ state.1 with size := itemValue data }, state.2)
    else if itemPrefix &&& 0xfc = 0x84 then ({ state.1 with id := itemValue data }, state.2)
    else if itemPrefix &&& 0xfc = 0x94 then ({ state.1 with count := itemValue data }, state.2)
    else if itemPrefix &&& 0xfc = 0xa4 then (state.1, state.1 :: state.2)
    else if itemPrefix &&& 0xfc = 0xb4 then
      match state.2 with
      | [] => state
      | g :: stack => (g, stack)
    else state
  | long _ _ => state

/-- The direction that a main item declares a field of. -/
def DescItem.main : DescItem → Option Direction
  | short itemPrefix _ =>
    if itemPrefix &&& 0xfc = 0x80 then some .input
    else if itemPrefix &&& 0xfc = 0x90 then some .output
    else none
  | long _ _ => none

/-- The main items, each with the globals it is declared under. -/
def declared (state : HidState) : List DescItem → List (Direction × Globals)
  | [] => []
  | item :: items =>
    (item.main.map fun d => (d, state.1)).toList ++ declared (item.apply state) items

/-- All the bits of a report. -/
def totalBits (mains : List (Direction × Globals)) (d : Direction) (id : Nat) : Nat :=
  ((mains.filter fun m => m.1 = d ∧ m.2.id = id).map fun m => m.2.size * m.2.count).sum

def DeclaresVendor (mains : List (Direction × Globals)) (d : Direction) (id : Nat) : Prop :=
  ∃ m ∈ mains, m.1 = d ∧ m.2.id = id ∧ m.2.page ≥ 0xff00

/-- The items that the bytes of a descriptor are. -/
structure Describes (items : List DescItem) (desc : Bytes) : Prop where
  wellFormed : ∀ item ∈ items, item.WellFormed
  bytes : desc = items.flatMap DescItem.bytes

/-- What is left of the parser by an item. -/
def itemStep (parser : Parser) : DescItem → Option Parser
  | .short itemPrefix data => parser.item (itemPrefix &&& 0xfc) (itemValue data)
  | .long _ _ => some parser

theorem parseItems_short {itemPrefix : UInt8} (h : itemPrefix ≠ 0xfe) (fuel : Nat)
    (parser : Parser) (desc : Bytes) :
    parseItems (fuel + 1) parser (itemPrefix :: desc) =
      if dataLength itemPrefix > desc.length then none
      else (parser.item (itemPrefix &&& 0xfc)
        (itemValue (desc.take (dataLength itemPrefix)))).bind fun next =>
          parseItems fuel next (desc.drop (dataLength itemPrefix)) := if_neg h

/-- **The items of a descriptor** are what the parser goes through. -/
theorem parseItems_bytes {items : List DescItem} {parser : Parser} {fuel : Nat}
    (hwell : ∀ item ∈ items, item.WellFormed)
    (hfuel : (items.flatMap DescItem.bytes).length < fuel) :
    parseItems fuel parser (items.flatMap DescItem.bytes) = items.foldlM itemStep parser := by
  induction items generalizing parser fuel with
  | nil =>
    cases fuel with
    | zero => exact absurd hfuel (Nat.not_lt_zero _)
    | succ fuel => rfl
  | cons item items ih =>
    have hitem := hwell item List.mem_cons_self
    have hrest := fun i hi => hwell i (List.mem_cons_of_mem item hi)
    rw [List.flatMap_cons, List.length_append] at hfuel
    rw [List.flatMap_cons, List.foldlM_cons]
    cases fuel with
    | zero => exact absurd hfuel (Nat.not_lt_zero _)
    | succ fuel =>
      cases item with
      | short itemPrefix data =>
        obtain ⟨ hprefix, hlength⟩ := hitem
        show parseItems (fuel + 1) parser (itemPrefix :: (data ++ _)) = _
        rw [parseItems_short hprefix, ← hlength, if_neg (by rw [List.length_append]; omega),
          List.take_left, List.drop_left]
        show Option.bind (parser.item _ _) _ = Option.bind (parser.item _ _) _
        cases parser.item (itemPrefix &&& 0xfc) (itemValue data) with
        | none => rfl
        | some next =>
          refine ih hrest ?_
          simp only [DescItem.bytes, List.length_cons] at hfuel
          omega
      | long tag data =>
        have hsize : (UInt8.ofNat data.length).toNat = data.length := by
          rw [UInt8.toNat_ofNat', Nat.mod_eq_of_lt hitem]
        show (if (data ++ _).length < (UInt8.ofNat data.length).toNat then none
          else parseItems fuel parser ((data ++ _).drop (UInt8.ofNat data.length).toNat)) = _
        rw [hsize, if_neg (by rw [List.length_append]; omega), List.drop_left]
        refine ih hrest ?_
        simp only [DescItem.bytes, List.length_cons] at hfuel
        omega

/-- **A descriptor that is gone through** is a sequence of items. -/
theorem describes_of_parseItems {fuel : Nat} {parser last : Parser} {desc : Bytes}
    (h : parseItems fuel parser desc = some last) : ∃ items, Describes items desc := by
  induction fuel generalizing parser desc with
  | zero => cases h
  | succ fuel ih =>
    cases desc with
    | nil => exact ⟨[], fun item hitem => (by cases hitem), rfl⟩
    | cons itemPrefix desc =>
      by_cases hlong : itemPrefix = 0xfe
      · unfold parseItems at h
        rw [if_pos hlong] at h
        cases desc with
        | nil => cases h
        | cons size desc =>
          cases desc with
          | nil => cases h
          | cons tag rest =>
            dsimp only at h
            split at h
            · cases h
            · rename_i hroom
              obtain ⟨items, hwell, hbytes⟩ := ih h
              have hlength : (rest.take size.toNat).length = size.toNat :=
                List.length_take_of_le (Nat.le_of_not_lt hroom)
              refine ⟨.long tag (rest.take size.toNat) :: items, fun item hitem => ?_, ?_⟩
              · rcases List.mem_cons.mp hitem with rfl | hitem
                · show (rest.take size.toNat).length < 256
                  rw [hlength]
                  exact size.toNat_lt
                · exact hwell item hitem
              · rw [List.flatMap_cons, ← hbytes]
                show _ = 0xfe :: UInt8.ofNat (rest.take size.toNat).length :: tag ::
                  (rest.take size.toNat ++ rest.drop size.toNat)
                rw [hlength, UInt8.ofNat_toNat, List.take_append_drop, hlong]
      · rw [parseItems_short hlong] at h
        split at h
        · cases h
        · rename_i hroom
          obtain ⟨next, -, h⟩ := Option.bind_eq_some_iff.mp h
          obtain ⟨items, hwell, hbytes⟩ := ih h
          refine ⟨.short itemPrefix (desc.take (dataLength itemPrefix)) :: items,
            fun item hitem => ?_, ?_⟩
          · rcases List.mem_cons.mp hitem with rfl | hitem
            · exact ⟨hlong, List.length_take_of_le (Nat.le_of_not_lt hroom)⟩
            · exact hwell item hitem
          · rw [List.flatMap_cons, ← hbytes]
            show _ = itemPrefix :: (desc.take (dataLength itemPrefix) ++
              desc.drop (dataLength itemPrefix))
            rw [List.take_append_drop]

variable {d : Direction} {id : Nat}

theorem totalBits_append (mains later : List (Direction × Globals)) :
    totalBits (mains ++ later) d id = totalBits mains d id + totalBits later d id := by
  unfold totalBits
  rw [List.filter_append, List.map_append, List.sum_append]

theorem declaresVendor_append {mains later : List (Direction × Globals)} :
    DeclaresVendor (mains ++ later) d id ↔
      DeclaresVendor mains d id ∨ DeclaresVendor later d id := by
  unfold DeclaresVendor
  constructor
  · rintro ⟨m, hm, h⟩
    rcases List.mem_append.mp hm with hm | hm
    · exact .inl ⟨m, hm, h⟩
    · exact .inr ⟨m, hm, h⟩
  · rintro (⟨m, hm, h⟩ | ⟨m, hm, h⟩)
    · exact ⟨m, List.mem_append_left later hm, h⟩
    · exact ⟨m, List.mem_append_right mains hm, h⟩

/-- What a parser has added to another one's fields. -/
structure Added (parser next : Parser) (mains : List (Direction × Globals)) : Prop where
  bits : ∀ d id, (next.fields d id).bits = (parser.fields d id).bits + totalBits mains d id
  vendor : ∀ d id, (next.fields d id).vendor = true ↔
    (parser.fields d id).vendor = true ∨ DeclaresVendor mains d id

theorem Added.nil {parser next : Parser} (h : next.fields = parser.fields) :
    Added parser next [] where
  bits d id := by rw [h]; rfl
  vendor d id := by
    rw [h]
    exact ⟨.inl, fun hor => hor.resolve_right fun ⟨_, hm, _⟩ => by cases hm⟩

theorem Added.append {parser mid next : Parser} {mains later : List (Direction × Globals)}
    (h : Added parser mid mains) (hlater : Added mid next later) :
    Added parser next (mains ++ later) where
  bits d id := by rw [hlater.bits, h.bits, totalBits_append, Nat.add_assoc]
  vendor d id := by rw [hlater.vendor, h.vendor, declaresVendor_append, or_assoc]

/-- **A main item** adds its bits to its report. -/
theorem Added.addField {parser next : Parser} (h : parser.addField d = some next) :
    next.g = parser.g ∧ next.stack = parser.stack ∧ Added parser next [(d, parser.g)] := by
  unfold Parser.addField at h
  dsimp only at h
  split at h
  · cases h
  · cases h
    refine ⟨rfl, rfl, fun d' id => ?_, fun d' id => ?_⟩
    · dsimp only
      unfold totalBits
      by_cases hhere : d' = d ∧ id = parser.g.id
      · obtain ⟨rfl, rfl⟩ := hhere
        rw [if_pos ⟨rfl, rfl⟩, List.filter_cons_of_pos (by simp)]
        rfl
      · rw [if_neg hhere, List.filter_cons_of_neg]
        · rfl
        · intro hthere
          obtain ⟨rfl, rfl⟩ := of_decide_eq_true hthere
          exact hhere ⟨rfl, rfl⟩
    · dsimp only
      unfold DeclaresVendor
      by_cases hhere : d' = d ∧ id = parser.g.id
      · obtain ⟨rfl, rfl⟩ := hhere
        rw [if_pos ⟨rfl, rfl⟩, Bool.or_eq_true, decide_eq_true_eq]
        refine or_congr_right ⟨fun h => ⟨_, List.mem_singleton_self _, rfl, rfl, h⟩, ?_⟩
        rintro ⟨m, hm, -, -, hpage⟩
        rw [List.mem_singleton.mp hm] at hpage
        exact hpage
      · rw [if_neg hhere]
        refine ⟨.inl, fun hor => hor.resolve_right ?_⟩
        rintro ⟨m, hm, rfl, rfl, -⟩
        rw [List.mem_singleton.mp hm] at hhere
        exact hhere ⟨rfl, rfl⟩

/-- **One item**: the globals move on, and a main item adds its bits. -/
theorem itemStep_spec {parser next : Parser} {item : DescItem}
    (h : itemStep parser item = some next) :
    (next.g, next.stack) = item.apply (parser.g, parser.stack) ∧
      Added parser next (item.main.map fun d => (d, parser.g)).toList := by
  cases item with
  | long tag data =>
    cases h
    exact ⟨rfl, .nil rfl⟩
  | short itemPrefix data =>
    unfold itemStep Parser.item at h
    unfold DescItem.apply DescItem.main
    dsimp only at h ⊢
    generalize itemPrefix &&& 0xfc = tag at h ⊢
    by_cases h04 : tag = 0x04
    · subst h04
      cases h
      exact ⟨rfl, .nil rfl⟩
    rw [if_neg h04] at h ⊢
    by_cases h74 : tag = 0x74
    · subst h74
      cases h
      exact ⟨rfl, .nil rfl⟩
    rw [if_neg h74] at h ⊢
    by_cases h84 : tag = 0x84
    · subst h84
      rw [if_pos rfl] at h
      split at h
      · cases h
      · cases h
        exact ⟨rfl, .nil rfl⟩
    rw [if_neg h84] at h ⊢
    by_cases h94 : tag = 0x94
    · subst h94
      cases h
      exact ⟨rfl, .nil rfl⟩
    rw [if_neg h94] at h ⊢
    by_cases ha4 : tag = 0xa4
    · subst ha4
      rw [if_pos rfl] at h
      split at h
      · cases h
      · cases h
        exact ⟨rfl, .nil rfl⟩
    rw [if_neg ha4] at h ⊢
    by_cases hb4 : tag = 0xb4
    · subst hb4
      rw [if_pos rfl] at h ⊢
      cases hstack : parser.stack with
      | nil =>
        rw [hstack] at h
        cases h
      | cons g stack =>
        rw [hstack] at h
        cases h
        exact ⟨rfl, .nil rfl⟩
    rw [if_neg hb4] at h ⊢
    by_cases h80 : tag = 0x80
    · subst h80
      obtain ⟨hg, hstack, hadded⟩ := Added.addField h
      rw [hg, hstack]
      exact ⟨rfl, hadded⟩
    rw [if_neg h80] at h ⊢
    by_cases h90 : tag = 0x90
    · subst h90
      obtain ⟨hg, hstack, hadded⟩ := Added.addField h
      rw [hg, hstack]
      exact ⟨rfl, hadded⟩
    rw [if_neg h90] at h ⊢
    cases h
    exact ⟨rfl, .nil rfl⟩

/-- **All items**: every field is what its main items declare. -/
theorem foldlM_itemStep_spec {items : List DescItem} {parser last : Parser}
    (h : items.foldlM itemStep parser = some last) :
    Added parser last (declared (parser.g, parser.stack) items) := by
  induction items generalizing parser with
  | nil =>
    cases h
    exact .nil rfl
  | cons item items ih =>
    rw [List.foldlM_cons] at h
    obtain ⟨next, hnext, h⟩ := Option.bind_eq_some_iff.mp h
    obtain ⟨hstate, hadded⟩ := itemStep_spec hnext
    have hrest := ih h
    rw [hstate] at hrest
    exact hadded.append hrest

/-- The size that a report has to have: none, or its bytes behind the id. -/
structure SizeOf (mains : List (Direction × Globals)) (d : Direction) (id : Nat)
    (size : Nat) : Prop where
  declared : size ≠ 0 ↔ DeclaresVendor mains d id
  range : size ≠ 0 → 3 ≤ size ∧ size ≤ 65535 ∧ totalBits mains d id % 8 = 0 ∧
    size = 1 + totalBits mains d id / 8

/-- The size of a report whose field is well formed. -/
theorem sizeOf_field {field : Field} {mains : List (Direction × Globals)}
    (hformed : field.wellFormed id = true) (hbits : field.bits = totalBits mains d id)
    (hvendor : field.vendor = true ↔ DeclaresVendor mains d id) :
    SizeOf mains d id field.reportSize.toNat := by
  unfold Field.reportSize
  cases hv : field.vendor with
  | false =>
    rw [hv] at hvendor
    refine ⟨⟨fun h => absurd rfl h, fun h => ?_⟩, fun h => absurd rfl h⟩
    cases hvendor.mpr h
  | true =>
    unfold Field.wellFormed at hformed
    simp only [hv, Bool.not_true, Bool.false_or, Bool.not_eq_true', Bool.or_eq_false_iff,
      decide_eq_false_iff_not] at hformed
    obtain ⟨⟨⟨-, hwhole⟩, hlow⟩, hhigh⟩ := hformed
    have hmax : maxBits = 65534 * 8 := rfl
    have hsize : (UInt16.ofNat (1 + field.bits / 8)).toNat = 1 + field.bits / 8 := by
      rw [UInt16.toNat_ofNat', Nat.mod_eq_of_lt (by omega)]
    rw [if_pos rfl, hsize]
    refine ⟨⟨fun _ => hvendor.mp hv, fun _ => by omega⟩, fun _ => ?_⟩
    rw [← hbits]
    have hmod : field.bits % 8 = 0 := Decidable.of_not_not hwhole
    omega

/-- **The parser of the descriptor is safe and exact**: it stops without a read out of bounds and
without a wrapped number; refused, no size is left; accepted, the sizes are what the items of the
descriptor declare. -/
theorem hidReportsParse_exact (allocates : Bool) (before : HidReports) (desc : Bytes) :
    ∃ ret reports, HidParse.hidReportsParse allocates before desc = .ok (ret, reports) ∧
      (allocates = false → ret = -12 ∧ reports = before) ∧
      (allocates = true → ret ≠ 0 → ret = -71 ∧ ∀ d id, sizesOf reports d id = 0) ∧
      (allocates = true → ret = 0 → (∃ items, Describes items desc) ∧
        ∀ items, Describes items desc → ∀ d id,
          SizeOf (declared ({}, []) items) d id.toNat (sizesOf reports d id).toNat) := by
  unfold HidParse.hidReportsParse
  cases allocates with
  | false => exact ⟨-12, before, rfl, fun _ => ⟨rfl, rfl⟩, nofun, nofun⟩
  | true =>
    rw [if_neg (by decide), parse_eq]
    cases hparsed : hidReportsParse desc with
    | none =>
      refine ⟨-71, HidParse.zeroReports, rfl, nofun, fun _ _ => ⟨rfl, fun d id => ?_⟩,
        fun _ h => absurd h (by decide)⟩
      cases d <;> rfl
    | some reports =>
      refine ⟨0, reports, rfl, nofun, fun _ h => absurd rfl h, fun _ _ => ?_⟩
      obtain ⟨last, hlast, -, hcomplete, rfl⟩ := hidReportsParse_answers hparsed
      refine ⟨describes_of_parseItems hlast, fun items hitems d id => ?_⟩
      rw [hitems.bytes, parseItems_bytes hitems.wellFormed (Nat.lt_succ_self _)] at hlast
      have hadded := foldlM_itemStep_spec hlast
      have hsize : sizesOf (reportsOf last) d id = (last.fields d id.toNat).reportSize := by
        cases d <;> rfl
      rw [hsize]
      refine sizeOf_field (hcomplete.formed d id.toNat id.toNat_lt) ?_ ?_
      · rw [hadded.bits]
        exact Nat.zero_add _
      · rw [hadded.vendor]
        exact ⟨fun h => h.resolve_left (by nofun), .inr⟩

end Catplay.Analysis.Iap2Usb
