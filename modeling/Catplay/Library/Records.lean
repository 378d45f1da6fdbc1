import Mathlib.Algebra.BigOperators.Group.List.Basic
import Mathlib.Data.UInt

/-!
# Records with a terminator

Words over an alphabet with a terminator are stored one behind the other, each followed by
the terminator. As no word contains it, a record is found again from its start alone
(`drop_start`), and the starts are the places behind a terminator (`terminator_iff`).
-/

set_option autoImplicit false

namespace Catplay.Library.Records

variable {α : Type*} {stop : α} {words : List (List α)}

/-- The words, each with its terminator. -/
def packed (stop : α) (words : List (List α)) : List α := words.flatMap fun w => w ++ [stop]

/-- The room that the words take. -/
def room (words : List (List α)) : Nat := (words.map fun w => w.length + 1).sum

/-- Where a record starts. -/
def start (words : List (List α)) (k : Nat) : Nat := room (words.take k)

/-- No word contains the terminator. -/
def Clean (stop : α) (words : List (List α)) : Prop := ∀ w ∈ words, stop ∉ w

@[simp] theorem packed_nil (stop : α) : packed stop [] = [] := rfl

@[simp] theorem packed_cons (stop : α) (w : List α) (words : List (List α)) :
    packed stop (w :: words) = w ++ stop :: packed stop words := by
  simp [packed]

theorem packed_append (stop : α) (words words' : List (List α)) :
    packed stop (words ++ words') = packed stop words ++ packed stop words' := by
  simp [packed]

@[simp] theorem room_nil : room ([] : List (List α)) = 0 := rfl

@[simp] theorem room_cons (w : List α) (words : List (List α)) :
    room (w :: words) = w.length + 1 + room words := by
  simp [room]

theorem room_append (words words' : List (List α)) :
    room (words ++ words') = room words + room words' := by
  simp [room]

@[simp] theorem length_packed (stop : α) (words : List (List α)) :
    (packed stop words).length = room words := by
  induction words with
  | nil => rfl
  | cons w words ih =>
    rw [packed_cons, room_cons, List.length_append, List.length_cons, ih]
    omega

@[simp] theorem start_zero (words : List (List α)) : start words 0 = 0 := rfl

theorem start_succ {k : Nat} {w : List α} (h : words[k]? = some w) :
    start words (k + 1) = start words k + (w.length + 1) := by
  obtain ⟨hk, rfl⟩ := List.getElem?_eq_some_iff.mp h
  unfold start
  rw [List.take_add_one, h, room_append]
  simp

theorem start_length (words : List (List α)) : start words words.length = room words := by
  unfold start
  rw [List.take_length]

theorem start_append (words words' : List (List α)) {k : Nat} (hk : k ≤ words.length) :
    start (words ++ words') k = start words k := by
  unfold start
  rw [List.take_append_of_le_length hk]

theorem start_lt {k : Nat} {w : List α} (h : words[k]? = some w) :
    start words k + w.length < room words := by
  obtain ⟨hk, -⟩ := List.getElem?_eq_some_iff.mp h
  have hsplit : room words = start words k + room (words.drop k) := by
    unfold start
    rw [← room_append, List.take_append_drop]
  have hdrop : words.drop k = w :: words.drop (k + 1) := by
    rw [List.drop_eq_getElem_cons hk]
    congr 1
    exact Option.some.inj ((List.getElem?_eq_getElem hk).symm.trans h)
  rw [hsplit, hdrop, room_cons]
  omega

/-- Later records start later. -/
theorem start_strictMono {j k : Nat} (hjk : j < k) (hk : k ≤ words.length) :
    start words j < start words k := by
  induction k with
  | zero => omega
  | succ k ih =>
    obtain ⟨w, hw⟩ : ∃ w, words[k]? = some w := ⟨_, List.getElem?_eq_getElem (by omega)⟩
    rw [start_succ hw]
    rcases Nat.lt_or_ge j k with hlt | hge
    · have hprev := ih hlt (by omega)
      omega
    · obtain rfl : j = k := by omega
      omega

theorem start_injective {j k : Nat} (hj : j < words.length) (hk : k < words.length)
    (h : start words j = start words k) : j = k := by
  rcases Nat.lt_trichotomy j k with hlt | heq | hlt
  · have hless := start_strictMono hlt (Nat.le_of_lt hk)
    omega
  · exact heq
  · have hless := start_strictMono hlt (Nat.le_of_lt hj)
    omega

/-- **A record** stands at its start, with its terminator and the rest behind it. -/
theorem drop_start (stop : α) {k : Nat} {w : List α} (h : words[k]? = some w) :
    (packed stop words).drop (start words k) = w ++ stop :: packed stop (words.drop (k + 1)) := by
  obtain ⟨hk, rfl⟩ := List.getElem?_eq_some_iff.mp h
  have hsplit : packed stop words = packed stop (words.take k) ++ packed stop (words.drop k) := by
    rw [← packed_append, List.take_append_drop]
  have hlength : (packed stop (words.take k)).length = start words k := length_packed _ _
  rw [hsplit, ← hlength, List.drop_left, List.drop_eq_getElem_cons hk, packed_cons]

/-- **The terminators** stand right before the start of the next record, or at the end. -/
theorem terminator_iff (hclean : Clean stop words) (p : Nat) :
    (packed stop words)[p]? = some stop ↔ ∃ k < words.length, p + 1 = start words (k + 1) := by
  induction words generalizing p with
  | nil => simp
  | cons w words ih =>
    have hrest : Clean stop words := fun v hv => hclean v (List.mem_cons_of_mem w hv)
    have hstart : ∀ k, start (w :: words) (k + 1) = w.length + 1 + start words k := by
      intro k
      unfold start
      rw [List.take_succ_cons, room_cons]
    rw [packed_cons]
    constructor
    · intro hp
      rcases Nat.lt_trichotomy p w.length with hlt | rfl | hgt
      · rw [List.getElem?_append_left hlt] at hp
        exact absurd (List.mem_of_getElem? hp) (hclean w List.mem_cons_self)
      · exact ⟨0, Nat.zero_lt_succ _, by rw [hstart, start_zero]⟩
      · rw [List.getElem?_append_right (Nat.le_of_lt hgt)] at hp
        obtain ⟨q, rfl⟩ : ∃ q, p = w.length + 1 + q := ⟨p - (w.length + 1), by omega⟩
        rw [show w.length + 1 + q - w.length = q + 1 by omega, List.getElem?_cons_succ] at hp
        obtain ⟨k, hk, hq⟩ := (ih hrest q).mp hp
        exact ⟨k + 1, Nat.succ_lt_succ hk, by rw [hstart]; omega⟩
    · rintro ⟨k, hk, hp⟩
      rw [hstart] at hp
      cases k with
      | zero =>
        rw [start_zero] at hp
        obtain rfl : p = w.length := by omega
        rw [List.getElem?_append_right (Nat.le_refl _), Nat.sub_self, List.getElem?_cons_zero]
      | succ k =>
        have hpos : start words 0 < start words (k + 1) :=
          start_strictMono (Nat.zero_lt_succ k) (by simpa using Nat.lt_succ_iff.mp hk)
        rw [start_zero] at hpos
        obtain ⟨q, rfl⟩ : ∃ q, p = w.length + 1 + q := ⟨p - (w.length + 1), by omega⟩
        rw [List.getElem?_append_right (by omega),
          show w.length + 1 + q - w.length = q + 1 by omega, List.getElem?_cons_succ]
        exact (ih hrest q).mpr ⟨k, by simpa using hk, by omega⟩

/-- As many terminators stand before a record as there are records before it. -/
theorem count_start [DecidableEq α] (hclean : Clean stop words) {k : Nat} (hk : k ≤ words.length) :
    ((packed stop words).take (start words k)).count stop = k := by
  have hsplit : packed stop words = packed stop (words.take k) ++ packed stop (words.drop k) := by
    rw [← packed_append, List.take_append_drop]
  have hlength : (packed stop (words.take k)).length = start words k := length_packed _ _
  rw [hsplit, ← hlength, List.take_left]
  have hcount : ∀ words : List (List α), Clean stop words →
      (packed stop words).count stop = words.length := by
    intro words hclean
    induction words with
    | nil => rfl
    | cons w words ih =>
      rw [packed_cons, List.count_append, List.count_cons_self,
        List.count_eq_zero_of_not_mem (hclean w List.mem_cons_self),
        ih fun v hv => hclean v (List.mem_cons_of_mem w hv)]
      simp
  rw [hcount _ fun v hv => hclean v (List.mem_of_mem_take hv), List.length_take,
    Nat.min_eq_left hk]

end Catplay.Library.Records
