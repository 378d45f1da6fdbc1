import Catplay.Model.Plist.Decode

/-!
# The parser is safe on every byte string

No step of the reader panics, whatever the bytes are, and the bytes of an object lie between
the header and the offset table (`parser_safe`). A parsed document is `WellFormed`; every
function of the reader needs no more than that.
-/

set_option autoImplicit false

namespace Catplay.Analysis.Plist

open Catplay.Library.BigEndian Catplay.Library.Checked Catplay.Library.Text Catplay.Model.Plist

/-- What `parse` has checked. -/
structure WellFormed (doc : Document) : Prop where
  offsetWidth_pos : 0 < doc.offsetWidth
  refWidth_pos : 0 < doc.refWidth
  header_le : header.length ≤ doc.tableOffset
  root_lt : doc.root < doc.objectCount
  table_le : doc.tableOffset + doc.objectCount * doc.offsetWidth ≤ usizeMax
  table_in : doc.tableOffset + doc.objectCount * doc.offsetWidth + trailerSize ≤ doc.input.length

/-- The bytes lie in the object area. -/
def Inside (doc : Document) (bytes : List UInt8) : Prop :=
  ∃ start, header.length ≤ start ∧ start + bytes.length ≤ doc.tableOffset ∧
    bytes = (doc.input.drop start).take bytes.length

/-- The bytes behind an object lie in the object area, and its numbers are machine numbers. -/
def ObjectInside (doc : Document) : Object → Prop
  | .boolean _ => True
  | .integer (.signed value) => -2 ^ 63 ≤ value ∧ value < 2 ^ 63
  | .integer (.unsigned value) => value < 2 ^ 64
  | .real _ => True
  | .date _ => True
  | .uid value => value < 2 ^ 64
  | .data bytes => Inside doc bytes
  | .string text => ∃ bytes, Inside doc bytes ∧ fromUtf8 bytes = some text
  | .utf16 bytes => Inside doc bytes
  | .array refs => Inside doc refs.bytes ∧ 0 < refs.width
  | .dictionary keys values =>
    Inside doc keys.bytes ∧ 0 < keys.width ∧ Inside doc values.bytes ∧ 0 < values.width

/-! ## Numbers -/

variable {P : Nat → Prop} {a b n id : Nat} {ε : Type}

theorem meets_addUsize (h : a + b ≤ usizeMax)
    (hP : P (a + b)) : Meets (addUsize a b : Exec ε Nat) P := by
  unfold addUsize
  rw [if_pos h]
  exact hP

theorem meets_mulUsize (h : a * b ≤ usizeMax)
    (hP : P (a * b)) : Meets (mulUsize a b : Exec ε Nat) P := by
  unfold mulUsize
  rw [if_pos h]
  exact hP

theorem meets_subUsize (h : b ≤ a) (hP : P (a - b)) :
    Meets (subUsize a b : Exec ε Nat) P := by
  unfold subUsize
  rw [if_pos h]
  exact hP

theorem tryUsize_eq_some {value : Nat} (h : tryUsize value = some n) :
    n = value ∧ value ≤ usizeMax := by
  unfold tryUsize at h
  split at h
  · exact ⟨(Option.some.inj h).symm, by assumption⟩
  · cases h

theorem checkedAdd_eq_some (h : checkedAdd a b = some n) :
    n = a + b ∧ a + b ≤ usizeMax := by
  unfold checkedAdd at h
  split at h
  · exact ⟨(Option.some.inj h).symm, by assumption⟩
  · cases h

theorem checkedMul_eq_some (h : checkedMul a b = some n) :
    n = a * b ∧ a * b ≤ usizeMax := by
  unfold checkedMul at h
  split at h
  · exact ⟨(Option.some.inj h).symm, by assumption⟩
  · cases h

theorem readInteger_lt (bytes : List UInt8) : readInteger bytes < 2 ^ 64 := by
  unfold readInteger
  have hstep : ∀ value < 2 ^ 64, ∀ byte : UInt8, (value <<< 8) % 2 ^ 64 ||| byte.toNat < 2 ^ 64 := by
    intro value _ byte
    have := byte.toNat_lt
    exact Nat.or_lt_two_pow (Nat.mod_lt _ (by decide)) (by omega)
  generalize hzero : (0 : Nat) = start
  have hstart : start < 2 ^ 64 := by omega
  clear hzero
  induction bytes generalizing start with
  | nil => exact hstart
  | cons byte bytes ih => exact ih _ (hstep start hstart byte)

theorem signedFromBytes_range (bytes : List UInt8) (hpos : 0 < bytes.length) :
    -2 ^ (8 * bytes.length - 1) ≤ signedFromBytes bytes ∧
      signedFromBytes bytes < 2 ^ (8 * bytes.length - 1) := by
  have hlt := ofBytes_lt bytes
  rw [show 256 = 2 ^ 8 from rfl, ← Nat.pow_mul] at hlt
  have hdouble : 2 ^ (8 * bytes.length) = 2 * 2 ^ (8 * bytes.length - 1) := by
    rw [← Nat.pow_succ']
    congr 1
    omega
  unfold signedFromBytes
  dsimp only
  have hint : ((2 : Int) ^ (8 * bytes.length)) = 2 * 2 ^ (8 * bytes.length - 1) := by
    exact_mod_cast hdouble
  have hcast : ((2 : Int) ^ (8 * bytes.length - 1)) = ((2 ^ (8 * bytes.length - 1) : Nat) : Int) := by
    push_cast
    rfl
  rw [hint]
  rw [hcast]
  rw [hdouble] at hlt
  split
  · omega
  · omega

/-! ## Reading bytes -/

section Document

variable {doc : Document}

theorem meets_offset (h : WellFormed doc) (id : Nat) :
    Meets (doc.offset id) fun start => header.length ≤ start ∧ start < doc.tableOffset := by
  unfold Document.offset
  apply (meets_orFail (P := fun n => n = id) (fun n hn => (tryUsize_eq_some hn).1) _).bind
  rintro i rfl
  split
  · exact meets_fail _ _
  rename_i hi
  have hnext : i * doc.offsetWidth + doc.offsetWidth ≤ doc.objectCount * doc.offsetWidth := by
    rw [← Nat.succ_mul]
    exact Nat.mul_le_mul_right _ (by omega)
  have hwidth := h.offsetWidth_pos
  have htable := h.table_le
  have hinput := h.table_in
  apply (meets_mulUsize (P := fun n => n = i * doc.offsetWidth) (by omega) rfl).bind
  rintro _ rfl
  apply (meets_addUsize (P := fun n => n = doc.tableOffset + i * doc.offsetWidth) (by omega)
    rfl).bind
  rintro _ rfl
  apply (meets_addUsize (P := fun n => n = doc.tableOffset + i * doc.offsetWidth +
    doc.offsetWidth) (by omega) rfl).bind
  rintro _ rfl
  apply (meets_slice (P := fun _ => True) (by omega) (by omega) trivial).bind
  intro entry _
  apply (meets_orFail (P := fun _ => True) (fun _ _ => trivial) _).bind
  intro start _
  split
  · exact meets_fail _ _
  · exact meets_ok (by omega)

/-- **A body** ends before the offset table. -/
theorem meets_body (start len : Nat) :
    Meets (doc.body start len) fun bytes => bytes.length = len ∧
      start + len ≤ doc.tableOffset ∧ bytes = (doc.input.drop start).take len := by
  unfold Document.body
  apply (meets_orFail (P := fun n => n = start + len)
    (fun n hn => (checkedAdd_eq_some hn).1) _).bind
  rintro _ rfl
  split
  · exact meets_fail _ _
  rename_i htable
  apply meets_orFail
  intro bytes hbytes
  unfold getSlice at hbytes
  split at hbytes
  · rename_i hin
    obtain rfl := Option.some.inj hbytes
    rw [Nat.add_sub_cancel_left]
    refine ⟨?_, by omega, rfl⟩
    rw [List.length_take, List.length_drop]
    omega
  · cases hbytes

variable {bytes : List UInt8} {pos : Nat}

theorem inside_of_body {start len : Nat} (hstart : header.length ≤ start)
    (h : bytes.length = len ∧ start + len ≤ doc.tableOffset ∧
      bytes = (doc.input.drop start).take len) : Inside doc bytes := by
  obtain ⟨rfl, hle, hbytes⟩ := h
  exact ⟨start, hstart, hle, hbytes⟩

/-- A length, and where the bytes start. -/
theorem meets_length (h : WellFormed doc) (nibble : UInt8) (hpos : pos ≤ doc.tableOffset) :
    Meets (doc.length nibble pos) fun found => pos ≤ found.2 ∧ found.2 ≤ doc.tableOffset := by
  have htable := h.table_le
  unfold Document.length
  split
  · exact meets_ok ⟨Nat.le_refl _, hpos⟩
  apply (meets_body pos 1).bind
  intro head hhead
  apply (meets_orFail (P := fun _ => True) (fun _ _ => trivial) _).bind
  intro code _
  apply (meets_addUsize (P := fun n => n = pos + 1) (by omega) rfl).bind
  rintro _ rfl
  split
  · exact meets_fail _ _
  apply (meets_body (pos + 1) _).bind
  intro bytes hbytes
  apply (meets_orFail (P := fun _ => True) (fun _ _ => trivial) _).bind
  intro len _
  apply (meets_addUsize (P := fun n => n = pos + 1 + 1 <<< (code &&& 0x0f).toNat) (by omega)
    rfl).bind
  rintro _ rfl
  exact meets_ok ⟨by dsimp only; omega, by dsimp only; omega⟩

/-! ## Objects -/

/-- The arms of `object`, each behind its marker. -/
theorem meets_integerObject (nibble : UInt8) (pos : Nat) :
    Meets (doc.integerObject nibble pos) (ObjectInside doc) := by
  unfold Document.integerObject
  split
  · apply (meets_body pos _).bind
    intro bytes _
    exact meets_ok (readInteger_lt bytes)
  split
  · apply (meets_body pos 8).bind
    rintro bytes ⟨hlen, -, -⟩
    have hrange := signedFromBytes_range bytes (by omega)
    rw [hlen] at hrange
    exact meets_ok hrange
  split
  · apply (meets_body pos 16).bind
    intro bytes _
    dsimp only
    split
    · rename_i hvalue
      have : u64Max = 2 ^ 64 - 1 := rfl
      exact meets_ok (show (signedFromBytes bytes).toNat < 2 ^ 64 by omega)
    · exact meets_fail _ _
  · exact meets_fail _ _

theorem meets_realObject (nibble : UInt8) (pos : Nat) :
    Meets (doc.realObject nibble pos) (ObjectInside doc) := by
  unfold Document.realObject
  split
  · apply (meets_body pos 4).bind
    intro bytes _
    exact meets_ok trivial
  split
  · apply (meets_body pos 8).bind
    intro bytes _
    exact meets_ok trivial
  · exact meets_fail _ _

theorem meets_dateObject (nibble : UInt8) (pos : Nat) :
    Meets (doc.dateObject nibble pos) (ObjectInside doc) := by
  unfold Document.dateObject
  split
  · apply (meets_body pos 8).bind
    intro bytes _
    exact meets_ok trivial
  · exact meets_fail _ _

theorem meets_uidObject (nibble : UInt8) (pos : Nat) :
    Meets (doc.uidObject nibble pos) (ObjectInside doc) := by
  unfold Document.uidObject
  split
  · rename_i hnibble
    have hsmall : nibble.toNat ≤ 7 := UInt8.le_iff_toNat_le.mp hnibble
    have : usizeMax = 2 ^ 64 - 1 := rfl
    apply (meets_addUsize (P := fun _ => True) (by omega) trivial).bind
    intro width _
    apply (meets_body pos width).bind
    intro bytes _
    exact meets_ok (readInteger_lt bytes)
  · exact meets_fail _ _

theorem meets_dataObject (h : WellFormed doc) (nibble : UInt8)
    (hlow : header.length ≤ pos) (hpos : pos ≤ doc.tableOffset) :
    Meets (doc.dataObject nibble pos) (ObjectInside doc) := by
  unfold Document.dataObject
  apply (meets_length h nibble hpos).bind
  rintro ⟨len, first⟩ ⟨hge, -⟩
  apply (meets_body first len).bind
  intro bytes hbytes
  exact meets_ok (inside_of_body (Nat.le_trans hlow hge) hbytes)

theorem meets_asciiObject (h : WellFormed doc) (nibble : UInt8)
    (hlow : header.length ≤ pos) (hpos : pos ≤ doc.tableOffset) :
    Meets (doc.asciiObject nibble pos) (ObjectInside doc) := by
  unfold Document.asciiObject
  apply (meets_length h nibble hpos).bind
  rintro ⟨len, first⟩ ⟨hge, -⟩
  apply (meets_body first len).bind
  intro bytes hbytes
  apply (meets_orFail (P := fun text => fromUtf8 bytes = some text) (fun _ ha => ha) _).bind
  intro text htext
  exact meets_ok ⟨bytes, inside_of_body (Nat.le_trans hlow hge) hbytes, htext⟩

theorem meets_utf16Object (h : WellFormed doc) (nibble : UInt8)
    (hlow : header.length ≤ pos) (hpos : pos ≤ doc.tableOffset) :
    Meets (doc.utf16Object nibble pos) (ObjectInside doc) := by
  unfold Document.utf16Object
  apply (meets_length h nibble hpos).bind
  rintro ⟨len, first⟩ ⟨hge, -⟩
  apply (meets_orFail (P := fun _ => True) (fun _ _ => trivial) _).bind
  intro byteLen _
  apply (meets_body first byteLen).bind
  intro bytes hbytes
  exact meets_ok (inside_of_body (Nat.le_trans hlow hge) hbytes)

theorem meets_arrayObject (h : WellFormed doc) (nibble : UInt8)
    (hlow : header.length ≤ pos) (hpos : pos ≤ doc.tableOffset) :
    Meets (doc.arrayObject nibble pos) (ObjectInside doc) := by
  unfold Document.arrayObject
  apply (meets_length h nibble hpos).bind
  rintro ⟨len, first⟩ ⟨hge, -⟩
  apply (meets_orFail (P := fun _ => True) (fun _ _ => trivial) _).bind
  intro byteLen _
  apply (meets_body first byteLen).bind
  intro bytes hbytes
  exact meets_ok ⟨inside_of_body (Nat.le_trans hlow hge) hbytes, h.refWidth_pos⟩

theorem inside_slice (h : Inside doc bytes) {start stop : Nat}
    (hle : start ≤ stop) (hin : stop ≤ bytes.length) :
    Inside doc ((bytes.drop start).take (stop - start)) := by
  obtain ⟨first, hfirst, hlast, hbytes⟩ := h
  have hlen : ((bytes.drop start).take (stop - start)).length = stop - start := by
    rw [List.length_take, List.length_drop]
    omega
  refine ⟨first + start, by omega, by omega, ?_⟩
  rw [hlen]
  conv => lhs; rw [hbytes]
  rw [List.drop_take, List.drop_drop, List.take_take, Nat.min_eq_left (by omega)]

theorem meets_dictionaryObject (h : WellFormed doc) (nibble : UInt8)
    (hlow : header.length ≤ pos) (hpos : pos ≤ doc.tableOffset) :
    Meets (doc.dictionaryObject nibble pos) (ObjectInside doc) := by
  unfold Document.dictionaryObject
  apply (meets_length h nibble hpos).bind
  rintro ⟨len, first⟩ ⟨hge, -⟩
  apply (meets_orFail (P := fun _ => True) (fun _ _ => trivial) _).bind
  intro byteLen _
  apply (meets_orFail (P := fun n => n = byteLen * 2)
    (fun n hn => (checkedMul_eq_some hn).1) _).bind
  rintro _ rfl
  apply (meets_body first (byteLen * 2)).bind
  intro bytes hbytes
  have hlen := hbytes.1
  have hinside := inside_of_body (Nat.le_trans hlow hge) hbytes
  apply (meets_slice (P := Inside doc) (Nat.zero_le _) (by omega)
    (inside_slice hinside (Nat.zero_le _) (by omega))).bind
  intro keys hkeys
  apply (meets_slice (P := Inside doc) (by omega) (Nat.le_refl _)
    (inside_slice hinside (by omega) (Nat.le_refl _))).bind
  intro values hvalues
  exact meets_ok ⟨hkeys, h.refWidth_pos, hvalues, h.refWidth_pos⟩

/-- **Object lookup** does not panic, and what it returns lies in the object area. -/
theorem meets_object (h : WellFormed doc) (id : Nat) :
    Meets (doc.object id) (ObjectInside doc) := by
  have htable := h.table_le
  have hinput := h.table_in
  unfold Document.object
  apply (meets_offset h id).bind
  rintro start ⟨hlow, hlt⟩
  apply (meets_index (P := fun _ => True) (by omega) trivial).bind
  intro code _
  apply (meets_addUsize (P := fun n => n = start + 1) (by omega) rfl).bind
  rintro _ rfl
  have hpos : start + 1 ≤ doc.tableOffset := hlt
  have hlow' : header.length ≤ start + 1 := Nat.le_succ_of_le hlow
  generalize code &&& 0x0f = nibble
  generalize code &&& 0xf0 = tag
  apply meets_ite fun _ => meets_ok trivial
  intro _
  apply meets_ite fun _ => meets_ok trivial
  intro _
  apply meets_ite fun _ => meets_integerObject nibble _
  intro _
  apply meets_ite fun _ => meets_realObject nibble _
  intro _
  apply meets_ite fun _ => meets_dateObject nibble _
  intro _
  apply meets_ite fun _ => meets_dataObject h nibble hlow' hpos
  intro _
  apply meets_ite fun _ => meets_asciiObject h nibble hlow' hpos
  intro _
  apply meets_ite fun _ => meets_utf16Object h nibble hlow' hpos
  intro _
  apply meets_ite fun _ => meets_uidObject nibble _
  intro _
  apply meets_ite fun _ => meets_arrayObject h nibble hlow' hpos
  intro _
  apply meets_ite fun _ => meets_dictionaryObject h nibble hlow' hpos
  intro _
  exact meets_fail _ _

/-! ## Parsing and looking up -/

theorem meets_fromBytes (h : bytes.length = trailerSize) :
    Meets (Trailer.fromBytes bytes : Exec Error Trailer) fun _ => True := by
  have hsize : trailerSize = 32 := rfl
  unfold Trailer.fromBytes
  apply (meets_index (P := fun _ => True) (by omega) trivial).bind
  intro offsetWidth _
  apply (meets_index (P := fun _ => True) (by omega) trivial).bind
  intro refWidth _
  apply (meets_slice (P := fun _ => True) (by omega) (by omega) trivial).bind
  intro objectCount _
  apply (meets_slice (P := fun _ => True) (by omega) (by omega) trivial).bind
  intro root _
  apply (meets_slice (P := fun _ => True) (by omega) (by omega) trivial).bind
  intro tableOffset _
  exact meets_ok trivial

theorem validReadWidth_pos {width : Nat} (h : validReadWidth width = true) : 0 < width := by
  unfold validReadWidth at h
  simp only [Bool.or_eq_true, decide_eq_true_eq] at h
  omega

/-- **Parsing** does not panic, and a parsed document is well formed. -/
theorem meets_parse (input : List UInt8) : Meets (Document.parse input) WellFormed := by
  have hheader : header.length = 8 := rfl
  have hsize : trailerSize = 32 := rfl
  unfold Document.parse
  split
  · exact meets_fail _ _
  split
  · exact meets_fail _ _
  apply (meets_subUsize (P := fun n => n = input.length - trailerSize) (by omega) rfl).bind
  rintro _ rfl
  apply (meets_slice (P := fun tail => tail.length = trailerSize) (by omega) (Nat.le_refl _)
    (by rw [List.length_take, List.length_drop]; omega)).bind
  intro tail htail
  apply (meets_fromBytes htail).bind
  intro trailer _
  dsimp only
  split
  · exact meets_fail _ _
  rename_i hwidths
  simp only [Bool.or_eq_true, Bool.not_eq_true', not_or, Bool.not_eq_false] at hwidths
  apply (meets_orFail (P := fun n => n = trailer.objectCount)
    (fun n hn => (tryUsize_eq_some hn).1) _).bind
  rintro _ rfl
  apply (meets_orFail (P := fun n => n = trailer.tableOffset)
    (fun n hn => (tryUsize_eq_some hn).1) _).bind
  rintro _ rfl
  split
  · exact meets_fail _ _
  rename_i hroot
  apply (meets_orFail (P := fun n => n = trailer.objectCount * trailer.offsetWidth.toNat)
    (fun n hn => (checkedMul_eq_some hn).1) _).bind
  rintro _ rfl
  apply (meets_orFail (P := fun n => n = trailer.tableOffset +
      trailer.objectCount * trailer.offsetWidth.toNat ∧ n ≤ usizeMax)
    (fun n hn => (by
      obtain ⟨rfl, hle⟩ := checkedAdd_eq_some hn
      exact ⟨rfl, hle⟩)) _).bind
  rintro tableEnd ⟨rfl, hfits⟩
  split
  · exact meets_fail _ _
  have hdoc : WellFormed
      { input, tableOffset := trailer.tableOffset, offsetWidth := trailer.offsetWidth.toNat,
        refWidth := trailer.refWidth.toNat, objectCount := trailer.objectCount,
        root := trailer.root } :=
    ⟨validReadWidth_pos hwidths.1, validReadWidth_pos hwidths.2, by dsimp only; omega,
      by dsimp only; omega, hfits, by dsimp only; omega⟩
  apply (meets_mapM (P := fun _ => True) fun id _ => (meets_offset hdoc id).mono
    fun _ _ => trivial).bind
  intro _ _
  exact meets_ok hdoc

theorem meets_keyMatches (wanted : Str) (key : Object) :
    Meets (Document.keyMatches wanted key) fun _ => True := by
  unfold Document.keyMatches
  split
  · exact meets_ok trivial
  · exact meets_ok trivial
  · exact meets_fail _ _

theorem meets_findKey (h : WellFormed doc) (wanted : Str) (keys values : Refs) (is : List Nat) :
    Meets (doc.findKey wanted keys values is) fun _ => True := by
  induction is with
  | nil => exact meets_ok trivial
  | cons i is ih =>
    unfold Document.findKey
    apply (meets_orFail (P := fun _ => True) (fun _ _ => trivial) _).bind
    intro keyId _
    apply (meets_object h keyId).bind
    intro key _
    apply (meets_keyMatches wanted key).bind
    intro matched _
    split
    · apply (meets_orFail (P := fun _ => True) (fun _ _ => trivial) _).bind
      intro value _
      exact meets_ok trivial
    · exact ih

theorem meets_dictionaryGet (h : WellFormed doc) (dictionary : Nat) (wanted : Str) :
    Meets (doc.dictionaryGet dictionary wanted) fun _ => True := by
  unfold Document.dictionaryGet
  apply (meets_object h dictionary).bind
  intro found _
  split
  · exact meets_findKey h wanted _ _ _
  · exact meets_fail _ _

/-! ## Decoding -/

section Decode

variable {Date : Type} (dates : DateFormat Date)

theorem meets_decodeObject (h : WellFormed doc) (id : Nat) :
    Meets (Decode.object doc id) (ObjectInside doc) :=
  (meets_object h id).mapError _

theorem meets_integer {value : WireInteger} (h : ObjectInside doc (.integer value)) :
    Meets (Decode.integer value) fun _ => True := by
  unfold Decode.integer
  cases value with
  | signed value =>
    have hrange : -2 ^ 63 ≤ value ∧ value < 2 ^ 63 := h
    dsimp only
    rw [dif_pos (by omega)]
    exact meets_ok trivial
  | unsigned value =>
    have hrange : value < 2 ^ 64 := h
    dsimp only
    rw [dif_pos (by omega)]
    exact meets_ok trivial

theorem meets_utf16String (bytes : List UInt8) :
    Meets (Decode.utf16String bytes) fun _ => True :=
  meets_orFail (fun _ _ => trivial) _

theorem meets_date (bits : Nat) : Meets (Decode.date dates bits) fun _ => True := by
  unfold Decode.date
  apply (meets_orFail (P := fun _ => True) (fun _ _ => trivial) _).bind
  intro date _
  exact meets_orFail (fun _ _ => trivial) _

theorem meets_key (h : WellFormed doc) (id : Nat) :
    Meets (Decode.key dates doc id) fun _ => True := by
  unfold Decode.key
  apply (meets_decodeObject h id).bind
  intro found _
  split
  · exact meets_ok trivial
  · exact meets_utf16String _
  · exact meets_orFail (fun _ _ => trivial) _
  · apply (meets_orFail (P := fun _ => True) (fun _ _ => trivial) _).bind
    intro _ _
    exact meets_fail _ _
  · exact meets_fail _ _

theorem meets_elements {V : Type} {child : Nat → Exec DecodeError V}
    (hchild : ∀ id, Meets (child id) fun _ => True) (refs : Refs) :
    Meets (Decode.elements child refs) fun _ => True := by
  have hloop : Meets (Decode.elements child refs) fun values => ∀ _ ∈ values, True := by
    apply meets_mapM
    intro i _
    apply (meets_orFail (P := fun _ => True) (fun _ _ => trivial) _).bind
    intro id _
    exact hchild id
  exact hloop.mono fun _ _ => trivial

theorem meets_entries {V : Type} {childKey : Nat → Exec DecodeError Str}
    {child : Nat → Exec DecodeError V} (hkey : ∀ id, Meets (childKey id) fun _ => True)
    (hchild : ∀ id, Meets (child id) fun _ => True) (keys values : Refs) :
    Meets (Decode.entries childKey child keys values) fun _ => True := by
  unfold Decode.entries
  apply meets_foldlM _ trivial
  intro i _ found _
  apply (meets_orFail (P := fun _ => True) (fun _ _ => trivial) _).bind
  intro keyId _
  apply (meets_orFail (P := fun _ => True) (fun _ _ => trivial) _).bind
  intro valueId _
  apply (hkey keyId).bind
  intro key _
  apply (hchild valueId).bind
  intro value _
  exact meets_ok trivial

theorem meets_value (h : WellFormed doc) (levels id : Nat) :
    Meets (Decode.value dates doc levels id) fun _ => True := by
  induction levels generalizing id with
  | zero => exact meets_fail _ _
  | succ levels ih =>
    unfold Decode.value
    apply (meets_decodeObject h id).bind
    intro found hfound
    split
    · exact meets_ok trivial
    · apply (meets_integer hfound).bind
      intro v _
      exact meets_ok trivial
    · exact meets_ok trivial
    · exact meets_ok trivial
    · apply (meets_utf16String _).bind
      intro text _
      exact meets_ok trivial
    · exact meets_ok trivial
    · exact meets_ok trivial
    · apply (meets_date dates _).bind
      intro d _
      exact meets_ok trivial
    · apply (meets_elements ih _).bind
      intro values _
      exact meets_ok trivial
    · apply (meets_entries _ ih _ _).bind
      · intro entries _
        exact meets_ok trivial
      · intro keyId
        split
        · exact meets_fail _ _
        · exact meets_key dates h keyId

end Decode

end Document

/-! ## Nesting -/

/-- The container `id` has `child` among its elements or values. -/
inductive Refers (doc : Document) (id child : Nat) : Prop
  | element {i : Nat} {refs : Refs} :
    doc.object id = .ok (.array refs) → refs.get i = some child → Refers doc id child
  | entry {i : Nat} {keys values : Refs} :
    doc.object id = .ok (.dictionary keys values) → i < keys.len →
      values.get i = some child → Refers doc id child

/-- A chain of `n` references from a container inwards. -/
inductive Nested (doc : Document) : Nat → Nat → Prop
  | here (id : Nat) : Nested doc 0 id
  | inner {n id child : Nat} : Refers doc id child → Nested doc n child → Nested doc (n + 1) id

/-- Containers each of which refers to one of them, as on a cycle, are nested without end. -/
theorem nested_of_closed {doc : Document} {S : Nat → Prop}
    (hclosed : ∀ id, S id → ∃ child, Refers doc id child ∧ S child) (n : Nat)
    (hid : S id) : Nested doc n id := by
  induction n generalizing id with
  | zero => exact .here id
  | succ n ih =>
    obtain ⟨child, hrefers, hchild⟩ := hclosed id hid
    exact .inner hrefers (ih hchild)

theorem lt_len_of_get {refs : Refs} {i child : Nat} (hwidth : 0 < refs.width)
    (h : refs.get i = some child) : i < refs.len := by
  unfold Refs.get at h
  obtain ⟨start, hstart, h⟩ := Option.bind_eq_some_iff.mp h
  obtain ⟨stop, hstop, h⟩ := Option.bind_eq_some_iff.mp h
  obtain ⟨bytes, hbytes, -⟩ := Option.bind_eq_some_iff.mp h
  obtain ⟨rfl, -⟩ := checkedMul_eq_some hstart
  obtain ⟨rfl, -⟩ := checkedAdd_eq_some hstop
  unfold getSlice at hbytes
  split at hbytes
  · rename_i hin
    unfold Refs.len
    apply (Nat.le_div_iff_mul_le hwidth).mpr
    rw [Nat.succ_mul]
    exact hin.2
  · cases hbytes

theorem decodeObject_ok {doc : Document} {found : Object}
    (h : doc.object id = .ok found) : Decode.object doc id = .ok found := by
  unfold Decode.object
  rw [h]
  rfl

/-- **No deeper than its levels.** A value that was decoded has no longer chain of references
than there were levels. -/
theorem nested_lt {Date : Type} {dates : DateFormat Date} {doc : Document} (hdoc : WellFormed doc)
    {levels : Nat} (hnested : Nested doc n id) {v : Value Date}
    (h : Decode.value dates doc levels id = .ok v) : n < levels := by
  induction levels generalizing n id v with
  | zero => cases h
  | succ levels ih =>
    unfold Decode.value at h
    obtain ⟨found, hfound, h⟩ := bind_eq_ok.mp h
    cases hnested with
    | here => exact Nat.succ_pos levels
    | @inner m _ child hrefers hrest =>
      apply Nat.succ_lt_succ
      cases hrefers with
      | @element i refs hobject hget =>
        rw [decodeObject_ok hobject] at hfound
        obtain rfl := Except.ok.inj hfound
        have hwidth : 0 < refs.width := ((meets_object hdoc id).of_ok hobject).2
        obtain ⟨values, hvalues, -⟩ := bind_eq_ok.mp h
        obtain ⟨w, hw⟩ := ok_of_mapM_ok hvalues i
          (List.mem_range.mpr (lt_len_of_get hwidth hget))
        rw [hget] at hw
        exact ih hrest hw
      | @entry i keys values hobject hi hget =>
        rw [decodeObject_ok hobject] at hfound
        obtain rfl := Except.ok.inj hfound
        obtain ⟨entries, hentries, -⟩ := bind_eq_ok.mp h
        obtain ⟨before, after, hround⟩ := ok_of_foldlM_ok hentries i (List.mem_range.mpr hi)
        obtain ⟨keyId, -, hround⟩ := bind_eq_ok.mp hround
        obtain ⟨valueId, hvalueId, hround⟩ := bind_eq_ok.mp hround
        obtain ⟨key, -, hround⟩ := bind_eq_ok.mp hround
        obtain ⟨w, hw, -⟩ := bind_eq_ok.mp hround
        rw [hget] at hvalueId
        obtain rfl := Except.ok.inj hvalueId
        exact ih hrest hw

theorem meets_fromSlice {Date : Type} (dates : DateFormat Date) (data : List UInt8) :
    Meets (fromSlice dates data) fun _ => True := by
  unfold fromSlice
  apply ((meets_parse data).mapError _).bind
  intro doc hdoc
  exact meets_value dates hdoc maxDepth doc.root

/-- **The parser is safe on every byte string.** Parsing, looking up an object or a key, and
decoding a value end with a result or an error and never panic; what an object shows of the
input lies between the header and the offset table; a chain of 128 references is an error, and
so is a cycle. -/
theorem parser_safe {Date : Type} (dates : DateFormat Date) (data : List UInt8) :
    ((∃ doc, Document.parse data = .ok doc) ∨ ∃ e, Document.parse data = .error (.error e)) ∧
    (∀ doc, Document.parse data = .ok doc →
      (∀ id, (∃ object, doc.object id = .ok object ∧ ObjectInside doc object) ∨
        ∃ e, doc.object id = .error (.error e)) ∧
      (∀ dictionary wanted, (∃ found, doc.dictionaryGet dictionary wanted = .ok found) ∨
        ∃ e, doc.dictionaryGet dictionary wanted = .error (.error e)) ∧
      (∀ n, maxDepth ≤ n → Nested doc n doc.root →
        ∃ e, fromSlice dates data = .error (.error e)) ∧
      ∀ S : Nat → Prop, S doc.root → (∀ id, S id → ∃ child, Refers doc id child ∧ S child) →
        ∃ e, fromSlice dates data = .error (.error e)) ∧
    ((∃ v, fromSlice dates data = .ok v) ∨ ∃ e, fromSlice dates data = .error (.error e)) := by
  have hends := (meets_fromSlice dates data).ends
  refine ⟨(meets_parse data).ends.imp (fun ⟨doc, hdoc, _⟩ => ⟨doc, hdoc⟩) id, ?_,
    hends.imp (fun ⟨v, hv, _⟩ => ⟨v, hv⟩) id⟩
  intro doc hparse
  have hdoc := (meets_parse data).of_ok hparse
  have hdeep : ∀ n, maxDepth ≤ n → Nested doc n doc.root →
      ∃ e, fromSlice dates data = .error (.error e) := by
    intro n hn hnested
    cases hends with
    | inr herror => exact herror
    | inl hok =>
      obtain ⟨v, hv, -⟩ := hok
      unfold fromSlice at hv
      rw [hparse] at hv
      have := nested_lt hdoc hnested hv
      omega
  refine ⟨fun id => (meets_object hdoc id).ends, fun dictionary wanted => ?_, hdeep, ?_⟩
  · exact (meets_dictionaryGet hdoc dictionary wanted).ends.imp (fun ⟨f, hf, _⟩ => ⟨f, hf⟩) id
  · intro S hroot hclosed
    exact hdeep maxDepth (Nat.le_refl _) (nested_of_closed hclosed maxDepth hroot)

end Catplay.Analysis.Plist
