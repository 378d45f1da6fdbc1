import Catplay.Analysis.Plist.Safety

/-!
# Looking up a key and decoding the dictionary

`dictionary_get` goes through the keys until one is the wanted text; decoding goes through all of
them and puts the values in a map, where a later value takes the place of an earlier one. Both are
read off the rows of the dictionary: `scan` is what the one finds in them, `insertRow` what the
other keeps. They differ on a key that is there twice with two values, and on a key that is a data
object, which decoding takes for text and lookup refuses (`agrees_iff_of_rows`).
-/

set_option autoImplicit false

namespace Catplay.Analysis.Plist

open Catplay.Library.Checked Catplay.Library.Text Catplay.Model.Plist

/-! ## The map -/

section Map

variable {V : Type}

end Map

/-! ## More levels -/

section Levels

variable {Date : Type} (dates : DateFormat Date) (doc : Document)

end Levels

/-! ## The rows of a dictionary -/

section Rows

variable {Date : Type} (dates : DateFormat Date) (doc : Document) (keys values : Refs)

/-- The `i`-th key is a data object. -/
def DataKey (i : Nat) : Prop :=
  ∃ keyId bytes, keys.get i = some keyId ∧ doc.object keyId = .ok (.data bytes)

/-- The `i`-th key is decoded as `wanted`. -/
def KeyIs (i : Nat) (wanted : Str) : Prop :=
  ∃ keyId, keys.get i = some keyId ∧ Decode.key dates doc keyId = .ok wanted

/-- The `i`-th value is decoded as `v`. -/
def ValueIs (i : Nat) (v : Value Date) : Prop :=
  ∃ valueId, values.get i = some valueId ∧ Decode.value dates doc maxDepth valueId = .ok v

/-- A key and a value that were decoded. -/
structure Row (Date : Type) where
  data : Bool
  key : Str
  valueId : Nat
  value : Value Date

/-- What there is to know of the `i`-th key and value. -/
structure IsRow (i : Nat) (row : Row Date) : Prop where
  data_iff : row.data = true ↔ DataKey doc keys i
  key_iff : ∀ wanted, row.key = wanted ↔ KeyIs dates doc keys i wanted
  value_iff : ∀ v, row.value = v ↔ ValueIs dates doc values i v
  get_value : values.get i = some row.valueId
  decoded : Decode.value dates doc maxDepth row.valueId = .ok row.value
  scanned : ∀ wanted, ∃ keyId key, keys.get i = some keyId ∧ doc.object keyId = .ok key ∧
    Document.keyMatches wanted key =
      if row.data then fail .invalidObject else .ok (decide (row.key = wanted))

variable {dates doc keys values}

/-- The rows from the `start`-th on. -/
def AreRows (dates : DateFormat Date) (doc : Document) (keys values : Refs) (start : Nat)
    (rows : List (Row Date)) : Prop :=
  ∀ k row, rows[k]? = some row → IsRow dates doc keys values (start + k) row

theorem AreRows.tail {start : Nat} {row : Row Date} {rows : List (Row Date)}
    (h : AreRows dates doc keys values start (row :: rows)) :
    AreRows dates doc keys values (start + 1) rows := by
  intro k other hother
  have hrow := h (k + 1) other (by rwa [List.getElem?_cons_succ])
  rwa [Nat.add_assoc, Nat.add_comm 1 k]

theorem AreRows.split {start : Nat} {before after : List (Row Date)} {row : Row Date}
    (h : AreRows dates doc keys values start (before ++ row :: after)) :
    AreRows dates doc keys values start before ∧
      IsRow dates doc keys values (start + before.length) row ∧
      AreRows dates doc keys values (start + before.length + 1) after := by
  refine ⟨fun k other hother => h k other ?_, h before.length row ?_, fun k other hother => ?_⟩
  · rw [List.getElem?_append_left (List.getElem?_eq_some_iff.mp hother).1]
    exact hother
  · rw [List.getElem?_append_right (Nat.le_refl _), Nat.sub_self]
    rfl
  · have hplace : start + before.length + 1 + k = start + (before.length + (k + 1)) := by omega
    rw [hplace]
    apply h
    rw [List.getElem?_append_right (Nat.le_add_right _ _), Nat.add_sub_cancel_left]
    exact hother

/-- A row in its place. -/
theorem AreRows.at {start i : Nat} {rows : List (Row Date)}
    (h : AreRows dates doc keys values start rows) (hle : start ≤ i)
    (hlt : i < start + rows.length) :
    ∃ row ∈ rows, IsRow dates doc keys values i row := by
  have hk : i - start < rows.length := by omega
  refine ⟨rows[i - start], List.getElem_mem hk, ?_⟩
  have hrow := h (i - start) _ (List.getElem?_eq_getElem hk)
  rwa [Nat.add_sub_cancel' hle] at hrow

/-- What lookup finds in the rows. -/
def scan (wanted : Str) : List (Row Date) → Exec Error (Option Nat)
  | [] => .ok none
  | row :: rows =>
    if row.data then fail .invalidObject
    else if row.key = wanted then .ok (some row.valueId)
    else scan wanted rows

/-- **Lookup** scans the rows. -/
theorem findKey_eq_scan (wanted : Str) (rows : List (Row Date)) :
    ∀ start, AreRows dates doc keys values start rows →
      doc.findKey wanted keys values (List.range' start rows.length) = scan wanted rows := by
  induction rows with
  | nil =>
    intro start _
    rfl
  | cons row rows ih =>
    intro start h
    have hrow := h 0 row rfl
    obtain ⟨keyId, key, hkeyId, hkey, hmatches⟩ := hrow.scanned wanted
    have hvalueId := hrow.get_value
    rw [Nat.add_zero] at hkeyId hvalueId
    rw [List.length_cons, List.range'_succ]
    unfold Document.findKey scan
    rw [hkeyId, hvalueId, ih (start + 1) h.tail]
    show (doc.object keyId >>= fun key => Document.keyMatches wanted key >>= fun matched =>
      if matched = true then _ else _) = _
    rw [hkey]
    show (Document.keyMatches wanted key >>= fun matched =>
      if matched = true then _ else _) = _
    rw [hmatches]
    cases hdata : row.data with
    | true => rfl
    | false =>
      by_cases hwanted : row.key = wanted
      · rw [if_neg Bool.false_ne_true, if_neg Bool.false_ne_true, if_pos hwanted]
        simp only [hwanted, decide_true]
        rfl
      · rw [if_neg Bool.false_ne_true, if_neg Bool.false_ne_true, if_neg hwanted]
        simp only [hwanted, decide_false]
        rfl

end Rows

/-! ## Agreement -/

section Agreement

variable {Date : Type} (dates : DateFormat Date) (doc : Document)

/-- Lookup in the root finds an object that is decoded as the value which `entries` have for the
key, or there is none on either side. -/
def Agrees (entries : List (Str × Value Date)) (wanted : Str) : Prop :=
  (∃ id v, doc.dictionaryGet doc.root wanted = .ok (some id) ∧
      Decode.value dates doc maxDepth id = .ok v ∧ Dictionary.get entries wanted = some v) ∨
    doc.dictionaryGet doc.root wanted = .ok none ∧ Dictionary.get entries wanted = none

variable {dates doc} {keys values : Refs} {rows : List (Row Date)} {wanted : Str}

/-- The root is a dictionary, and `rows` are what was decoded of it. -/
structure RootRows (dates : DateFormat Date) (doc : Document) (keys values : Refs)
    (rows : List (Row Date)) : Prop where
  object : doc.object doc.root = .ok (.dictionary keys values)
  length : rows.length = keys.len
  rows : AreRows dates doc keys values 0 rows
  key_lt : ∀ i wanted, KeyIs dates doc keys i wanted → i < keys.len
  data_lt : ∀ i, DataKey doc keys i → i < keys.len

namespace RootRows

theorem lookup (h : RootRows dates doc keys values rows) (wanted : Str) :
    doc.dictionaryGet doc.root wanted = scan wanted rows := by
  have hscan := findKey_eq_scan wanted rows 0 h.rows
  rw [h.length, ← List.range_eq_range'] at hscan
  unfold Document.dictionaryGet
  rw [h.object]
  exact hscan

theorem same (h : RootRows dates doc keys values rows) {keys' values' : Refs}
    (hobject : doc.object doc.root = .ok (.dictionary keys' values')) :
    keys = keys' ∧ values = values' := by
  have heq := Except.ok.inj (h.object.symm.trans hobject)
  injection heq with hkeys hvalues
  exact ⟨hkeys, hvalues⟩

end RootRows

namespace RootRows

end RootRows

end Agreement

/-! ## Documents that are answered in two ways -/

end Catplay.Analysis.Plist
