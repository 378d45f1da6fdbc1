import Mathlib.Algebra.Order.BigOperators.Group.List
import Mathlib.Algebra.Order.Group.Nat
import Mathlib.Data.UInt

/-!
# Finite maps

Maps from bytes, which are iterated in the order of the keys, and maps from numbers.
-/

set_option autoImplicit false

/-!
## Finite maps with byte keys

A map from `UInt8` is a function into `Option`. Keys are iterated in ascending
order (`entries`), as an ordered map does. The operations come with the lemmas that
read a key after them.
-/

namespace Catplay.Library

abbrev ByteMap (α : Type*) := UInt8 → Option α

namespace ByteMap

variable {α : Type*}

def empty : ByteMap α := fun _ => none

def insert (m : ByteMap α) (k : UInt8) (v : α) : ByteMap α :=
  fun q => if q = k then some v else m q

def remove (m : ByteMap α) (k : UInt8) : ByteMap α :=
  fun q => if q = k then none else m q

/-- Keep the entries whose key satisfies `p`. -/
def retain (m : ByteMap α) (p : UInt8 → Bool) : ByteMap α :=
  fun q => if p q then m q else none

/-- All bytes in ascending order. -/
def allBytes : List UInt8 := (List.range 256).map UInt8.ofNat

/-- The entries in ascending order of their keys. -/
def entries (m : ByteMap α) : List (UInt8 × α) :=
  allBytes.filterMap fun k => (m k).map fun v => (k, v)

theorem empty_apply (q : UInt8) : (empty : ByteMap α) q = none := rfl

theorem insert_apply (m : ByteMap α) (k q : UInt8) (v : α) :
    m.insert k v q = if q = k then some v else m q := rfl

theorem remove_apply (m : ByteMap α) (k q : UInt8) :
    m.remove k q = if q = k then none else m q := rfl

theorem retain_apply (m : ByteMap α) (p : UInt8 → Bool) (q : UInt8) :
    m.retain p q = if p q then m q else none := rfl

@[simp] theorem insert_self (m : ByteMap α) (k : UInt8) (v : α) : m.insert k v k = some v := by
  simp [insert]

theorem mem_allBytes (k : UInt8) : k ∈ allBytes := by
  refine List.mem_map.mpr ⟨k.toNat, List.mem_range.mpr k.toNat_lt, ?_⟩
  exact UInt8.ofNat_toNat

variable {k : UInt8} {m : ByteMap α} {v : α}

/-- An entry of the iteration is an entry of the map. -/
theorem mem_entries :
    (k, v) ∈ m.entries ↔ m k = some v := by
  simp only [entries, List.mem_filterMap, Option.map_eq_some_iff, Prod.mk.injEq]
  constructor
  · rintro ⟨q, -, w, hw, rfl, rfl⟩
    exact hw
  · intro h
    exact ⟨k, mem_allBytes k, v, h, rfl, rfl⟩

/-! ### The number of entries -/

/-- The number of keys that have an entry. -/
def size (m : ByteMap α) : Nat := allBytes.countP fun k => (m k).isSome

/-- There are no more entries than bytes. -/
theorem size_le (m : ByteMap α) : m.size ≤ 256 := by
  have hlen : allBytes.length = 256 := by
    simp [allBytes]
  calc m.size ≤ allBytes.length := List.countP_le_length
    _ = 256 := hlen

/-- Removing an entry that is there leaves fewer. -/
theorem size_remove_lt (h : m k = some v) :
    (m.remove k).size < m.size := by
  obtain ⟨before, after, hsplit⟩ := List.append_of_mem (mem_allBytes k)
  have hle : ∀ l : List UInt8,
      l.countP (fun q => (m.remove k q).isSome) ≤ l.countP fun q => (m q).isSome := by
    intro l
    apply List.countP_mono_left
    intro q _ hq
    simp only [remove_apply] at hq
    split at hq
    · cases hq
    · exact hq
  have hbefore := hle before
  have hafter := hle after
  simp only [size, hsplit, List.countP_append, List.countP_cons, remove_apply, h,
    Option.isSome_some, Option.isSome_none, if_true, Bool.false_eq_true, if_false]
  simp only [remove_apply] at hbefore hafter
  omega

/-- A map of size zero has no entry. -/
theorem eq_none_of_size_eq_zero (h : m.size = 0) (k : UInt8) : m k = none := by
  have hnot := List.countP_eq_zero.mp h k (mem_allBytes k)
  simpa using hnot

/-! ### Sums over the entries -/

/-- The sum of `f` over all entries. -/
def total (m : ByteMap α) (f : α → Nat) : Nat :=
  (allBytes.map fun k => ((m k).map f).getD 0).sum

/-- An entry that is replaced by one that counts less makes the sum smaller. -/
theorem total_insert_lt {w : α} {f : α → Nat} (h : m k = some v)
    (hlt : f w < f v) : (m.insert k w).total f < m.total f := by
  refine List.sum_lt_sum _ _ (fun q _ => ?_) ⟨k, mem_allBytes k, ?_⟩
  · rw [insert_apply]
    split
    · rename_i hq
      rw [hq, h]
      exact Nat.le_of_lt hlt
    · exact Nat.le_refl _
  · rw [insert_self, h]
    exact hlt

end ByteMap

end Catplay.Library

/-!
## Maps from numbers

A map is the list of its entries, with one entry for each key that is in it. The operations come
with the lemmas that read a key or list the keys after them.
-/

namespace Catplay.Library

abbrev IdMap (α : Type) := List (Nat × α)

namespace IdMap

variable {α : Type}

def keys (m : IdMap α) : List Nat := m.map Prod.fst

def get? (m : IdMap α) (k : Nat) : Option α := (m.find? (·.1 = k)).map (·.2)

def erase (m : IdMap α) (k : Nat) : IdMap α := m.filter (·.1 ≠ k)

def insert (m : IdMap α) (k : Nat) (v : α) : IdMap α := (k, v) :: m.erase k

@[simp] theorem keys_cons (e : Nat × α) (m : IdMap α) : keys (e :: m) = e.1 :: keys m := rfl

@[simp] theorem keys_append (m n : IdMap α) : keys (m ++ n) = keys m ++ keys n := List.map_append

@[simp] theorem length_keys (m : IdMap α) : (keys m).length = m.length := List.length_map _

variable {m : IdMap α} {k : Nat}

theorem mem_keys_of_mem {e : Nat × α} (h : e ∈ m) : e.1 ∈ keys m :=
  List.mem_map_of_mem h

theorem mem_of_get? {v : α} (h : m.get? k = some v) : (k, v) ∈ m := by
  obtain ⟨e, he, rfl⟩ := Option.map_eq_some_iff.mp h
  have hkey := List.find?_some he
  rw [decide_eq_true_eq] at hkey
  rw [← hkey]
  exact List.mem_of_find?_eq_some he

theorem get?_eq_none_iff : m.get? k = none ↔ k ∉ keys m := by
  unfold get? keys
  simp only [Option.map_eq_none_iff, List.find?_eq_none, List.mem_map, decide_eq_true_eq]
  constructor
  · rintro h ⟨e, he, hkey⟩
    exact h e he hkey
  · intro h e he hkey
    exact h ⟨e, he, hkey⟩

theorem exists_of_mem_keys (h : k ∈ keys m) :
    ∃ v, m.get? k = some v := by
  cases hget : m.get? k with
  | none => exact absurd h (get?_eq_none_iff.mp hget)
  | some v => exact ⟨v, rfl⟩

theorem mem_erase {e : Nat × α} : e ∈ m.erase k ↔ e ∈ m ∧ e.1 ≠ k := by
  unfold erase
  rw [List.mem_filter, decide_eq_true_eq]

theorem erase_of_fresh (h : k ∉ keys m) : m.erase k = m := by
  unfold erase
  rw [List.filter_eq_self]
  intro e he
  rw [decide_eq_true_eq]
  rintro rfl
  exact h (mem_keys_of_mem he)

/-- **One key less.** -/
theorem keys_perm_cons_erase (hnodup : (keys m).Nodup)
    (h : k ∈ keys m) : (keys m).Perm (k :: keys (m.erase k)) := by
  have herase : keys (m.erase k) = (keys m).erase k := by
    rw [hnodup.erase_eq_filter]
    unfold keys erase
    rw [List.filter_map]
    congr 1
    apply List.filter_congr
    intro e _
    simp [bne, Function.comp, Bool.beq_eq_decide_eq]
  rw [herase]
  exact List.perm_cons_erase h

theorem get?_erase_of_ne (m : IdMap α) {q : Nat} (h : q ≠ k) : (m.erase k).get? q = m.get? q := by
  unfold erase get?
  congr 1
  induction m with
  | nil => rfl
  | cons e m ih =>
    by_cases hk : e.1 = k
    · rw [List.filter_cons_of_neg (by simpa using hk), ih,
        List.find?_cons_of_neg (by simpa [hk] using h.symm)]
    · rw [List.filter_cons_of_pos (by simpa using hk), List.find?_cons, List.find?_cons, ih]

theorem get?_insert (m : IdMap α) (k : Nat) (v : α) (q : Nat) :
    (m.insert k v).get? q = if q = k then some v else m.get? q := by
  by_cases h : q = k
  · rw [if_pos h, insert, get?, List.find?_cons_of_pos (by simpa using h.symm)]
    rfl
  · have hskip : (m.insert k v).get? q = (m.erase k).get? q := by
      rw [insert, get?, List.find?_cons_of_neg (by simpa using Ne.symm h)]
      rfl
    rw [if_neg h, hskip, get?_erase_of_ne m h]

end IdMap

end Catplay.Library
