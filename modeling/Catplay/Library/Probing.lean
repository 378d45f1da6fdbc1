import Mathlib.Data.Finset.Card
import Mathlib.Order.Nat

/-!
# Linear probing

A table with open addressing: a key is searched from its home slot on, slot by slot and
around the end, until it is found or a slot is empty. The search never passes a stored
key because every slot on the way to it is taken (`Table.reach`), and it ends because a
slot is empty whenever there are more slots than keys (`Table.search`).
-/

set_option autoImplicit false

namespace Catplay.Library.Probing

variable {κ : Type*} {size : Nat} {home : κ → Nat} {keys : List κ}
  {occupant : Nat → Option κ}

/-- The slot that is some steps away from the home of a key. -/
def slotAt (size : Nat) (home : κ → Nat) (k : κ) (steps : Nat) : Nat := (home k + steps) % size

/-- The search for a key passes the first slots: they hold other keys. -/
def Passes (size : Nat) (home : κ → Nat) (occupant : Nat → Option κ) (k : κ) (steps : Nat) : Prop :=
  ∀ e < steps, ∃ other, occupant (slotAt size home k e) = some other ∧ other ≠ k

/-- **A table** of keys: each is stored, and the search for it passes all slots on the way. -/
structure Table (size : Nat) (home : κ → Nat) (keys : List κ) (occupant : Nat → Option κ) :
    Prop where
  stored : ∀ k, k ∈ keys ↔ ∃ s < size, occupant s = some k
  reach : ∀ s < size, ∀ k, occupant s = some k →
    ∃ steps < size, s = slotAt size home k steps ∧ Passes size home occupant k steps

theorem slotAt_lt (hsize : 0 < size) (k : κ) (steps : Nat) : slotAt size home k steps < size :=
  Nat.mod_lt _ hsize

/-- Every slot is reached within one round. -/
theorem exists_slotAt (home : κ → Nat) (hsize : 0 < size) (k : κ) {s : Nat} (hs : s < size) :
    ∃ steps < size, slotAt size home k steps = s := by
  refine ⟨(s + (size - home k % size)) % size, Nat.mod_lt _ hsize, ?_⟩
  have hhome : home k % size < size := Nat.mod_lt _ hsize
  have hround : (home k + (s + (size - home k % size))) % size = s := by
    have hsplit : home k + (s + (size - home k % size)) = s + size * (home k / size + 1) := by
      have hdiv := Nat.div_add_mod (home k) size
      rw [Nat.mul_add, Nat.mul_one]
      omega
    rw [hsplit, Nat.add_mul_mod_self_left, Nat.mod_eq_of_lt hs]
  unfold slotAt
  rw [Nat.add_mod_mod, hround]

/-- No key is stored twice. -/
theorem Table.unique (h : Table size home keys occupant) {s t : Nat} (hs : s < size) (ht : t < size)
    {k : κ} (hsk : occupant s = some k) (htk : occupant t = some k) : s = t := by
  obtain ⟨d, -, rfl, hpass⟩ := h.reach s hs k hsk
  obtain ⟨e, -, rfl, hpass'⟩ := h.reach t ht k htk
  rcases Nat.lt_trichotomy d e with hlt | rfl | hlt
  · obtain ⟨other, hother, hne⟩ := hpass' d hlt
    rw [hsk] at hother
    exact absurd (Option.some.inj hother).symm hne
  · rfl
  · obtain ⟨other, hother, hne⟩ := hpass e hlt
    rw [htk] at hother
    exact absurd (Option.some.inj hother).symm hne

/-- With more slots than keys some slot is empty. -/
theorem Table.exists_empty [DecidableEq κ] (h : Table size home keys occupant) (hroom : keys.length < size) :
    ∃ s < size, occupant s = none := by
  by_contra hfull
  have hfull' : ∀ s < size, ∃ k, occupant s = some k := fun s hs =>
    Option.ne_none_iff_exists'.mp fun hnone => hfull ⟨s, hs, hnone⟩
  obtain ⟨first, -⟩ := hfull' 0 (by omega)
  have : Nonempty κ := ⟨first⟩
  choose! f hf using hfull'
  have hcard : (Finset.range size).card ≤ keys.toFinset.card := by
    refine Finset.card_le_card_of_injOn f (fun s hs => ?_) fun s hs t ht hst => ?_
    · have hlt : s < size := by simpa using hs
      have hmem := (h.stored _).mpr ⟨s, hlt, hf s hlt⟩
      simpa using hmem
    · have hslt : s < size := by simpa using hs
      have htlt : t < size := by simpa using ht
      refine h.unique hslt htlt (hf s hslt) ?_
      rw [hst]
      exact hf t htlt
  rw [Finset.card_range] at hcard
  have hle := keys.toFinset_card_le
  omega

/-- **The search ends** within one round: at the key if it is stored, at an empty slot otherwise. -/
theorem Table.search [DecidableEq κ] (h : Table size home keys occupant) (hroom : keys.length < size) (k : κ) :
    ∃ steps < size, Passes size home occupant k steps ∧
      (k ∈ keys ∧ occupant (slotAt size home k steps) = some k ∨
        k ∉ keys ∧ occupant (slotAt size home k steps) = none) := by
  by_cases hk : k ∈ keys
  · obtain ⟨s, hs, hsk⟩ := (h.stored k).mp hk
    obtain ⟨steps, hsteps, rfl, hpass⟩ := h.reach s hs k hsk
    exact ⟨steps, hsteps, hpass, Or.inl ⟨hk, hsk⟩⟩
  · have hsize : 0 < size := by omega
    obtain ⟨s, hs, hempty⟩ := h.exists_empty hroom
    obtain ⟨far, hfar, rfl⟩ := exists_slotAt home hsize k hs
    -- the nearest empty slot
    have hexists : ∃ steps, occupant (slotAt size home k steps) = none := ⟨far, hempty⟩
    refine ⟨Nat.find hexists, (Nat.find_min' hexists hempty).trans_lt hfar, fun e he => ?_,
      Or.inr ⟨hk, Nat.find_spec hexists⟩⟩
    obtain ⟨other, hother⟩ := Option.ne_none_iff_exists'.mp (Nat.find_min hexists he)
    refine ⟨other, hother, fun hbad => hk ?_⟩
    rw [hbad] at hother
    exact (h.stored k).mpr ⟨_, slotAt_lt hsize k e, hother⟩

/-- **Insertion** where the search ended at an empty slot. -/
theorem Table.insert (h : Table size home keys occupant) {k : κ} {steps : Nat} (hsteps : steps < size)
    (hpass : Passes size home occupant k steps)
    (hempty : occupant (slotAt size home k steps) = none) :
    Table size home (keys ++ [k])
      (Function.update occupant (slotAt size home k steps) (some k)) := by
  have hsize : 0 < size := by omega
  have hkept : ∀ s other, occupant s = some other →
      Function.update occupant (slotAt size home k steps) (some k) s = some other := by
    intro s other hother
    rw [Function.update_of_ne]
    · exact hother
    · rintro rfl
      rw [hempty] at hother
      cases hother
  have hpasses : ∀ q d, Passes size home occupant q d →
      Passes size home (Function.update occupant (slotAt size home k steps) (some k)) q d := by
    intro q d hq e he
    obtain ⟨other, hother, hne⟩ := hq e he
    exact ⟨other, hkept _ _ hother, hne⟩
  constructor
  · intro q
    rw [List.mem_append, List.mem_singleton, h.stored]
    constructor
    · rintro (⟨s, hs, hq⟩ | rfl)
      · exact ⟨s, hs, hkept s q hq⟩
      · exact ⟨_, slotAt_lt hsize q steps, Function.update_self _ _ _⟩
    · rintro ⟨s, hs, hq⟩
      by_cases hslot : s = slotAt size home k steps
      · rw [hslot, Function.update_self] at hq
        exact Or.inr (Option.some.inj hq).symm
      · rw [Function.update_of_ne hslot] at hq
        exact Or.inl ⟨s, hs, hq⟩
  · intro s hs q hq
    by_cases hslot : s = slotAt size home k steps
    · rw [hslot, Function.update_self] at hq
      obtain rfl := Option.some.inj hq
      exact ⟨steps, hsteps, hslot, hpasses _ _ hpass⟩
    · rw [Function.update_of_ne hslot] at hq
      obtain ⟨d, hd, hplace, hpass'⟩ := h.reach s hs q hq
      exact ⟨d, hd, hplace, hpasses _ _ hpass'⟩

/-- An empty table. -/
theorem Table.empty (size : Nat) (home : κ → Nat) : Table size home [] fun _ => none :=
  ⟨fun k => by simp, fun s _ k hk => by cases hk⟩

end Catplay.Library.Probing
