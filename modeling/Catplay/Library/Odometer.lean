import Mathlib.Data.UInt

/-!
# Counting through index vectors

A loop over all combinations of choices counts an index vector up like an odometer, the first
place fastest. The rank of a vector is the number it stands for; a step adds one to it, and no
vector lies behind the one that has no step.
-/

set_option autoImplicit false

namespace Catplay.Library.Odometer

/-- The next index vector. `none` where every place has wrapped. -/
def advance : List Nat → List Nat → Option (List Nat)
  | size :: sizes, index :: indices =>
    if index + 1 < size then some ((index + 1) :: indices)
    else (advance sizes indices).map (0 :: ·)
  | _, _ => none

/-- Every index is below its size. -/
def Valid (sizes indices : List Nat) : Prop := List.Forall₂ (· < ·) indices sizes

/-- The number a vector stands for. -/
def rank : List Nat → List Nat → Nat
  | size :: sizes, index :: indices => index + size * rank sizes indices
  | _, _ => 0

theorem advance_cons (size index : Nat) (sizes indices : List Nat) :
    advance (size :: sizes) (index :: indices) =
      if index + 1 < size then some ((index + 1) :: indices)
      else (advance sizes indices).map (0 :: ·) := rfl

theorem rank_cons (size index : Nat) (sizes indices : List Nat) :
    rank (size :: sizes) (index :: indices) = index + size * rank sizes indices := rfl

theorem rank_injective {sizes first second : List Nat} (hfirst : Valid sizes first)
    (hsecond : Valid sizes second) (h : rank sizes first = rank sizes second) :
    first = second := by
  induction sizes generalizing first second with
  | nil =>
    cases hfirst
    cases hsecond
    rfl
  | cons size sizes ih =>
    obtain ⟨i, is, hi, his, rfl⟩ := List.forall₂_cons_right_iff.mp hfirst
    obtain ⟨j, js, hj, hjs, rfl⟩ := List.forall₂_cons_right_iff.mp hsecond
    simp only [rank_cons] at h
    have hplace : i = j := by
      have := congrArg (· % size) h
      simpa [Nat.add_mul_mod_self_left, Nat.mod_eq_of_lt hi, Nat.mod_eq_of_lt hj] using this
    subst hplace
    have hrest : rank sizes is = rank sizes js :=
      Nat.eq_of_mul_eq_mul_left (Nat.zero_lt_of_lt hi) (Nat.add_left_cancel h)
    rw [ih his hjs hrest]

theorem advance_some {sizes indices next : List Nat} (hvalid : Valid sizes indices)
    (h : advance sizes indices = some next) :
    Valid sizes next ∧ rank sizes next = rank sizes indices + 1 := by
  induction sizes generalizing indices next with
  | nil =>
    cases hvalid
    cases h
  | cons size sizes ih =>
    obtain ⟨i, is, hi, his, rfl⟩ := List.forall₂_cons_right_iff.mp hvalid
    by_cases hroom : i + 1 < size
    · simp only [advance_cons, if_pos hroom, Option.some.injEq] at h
      subst h
      exact ⟨List.Forall₂.cons hroom his, by simp only [rank_cons]; omega⟩
    · simp only [advance_cons, if_neg hroom, Option.map_eq_some_iff] at h
      obtain ⟨tail, htail, rfl⟩ := h
      obtain ⟨hvalidTail, hrank⟩ := ih his htail
      refine ⟨List.Forall₂.cons (Nat.zero_lt_of_lt hi) hvalidTail, ?_⟩
      have hlast : i + 1 = size := by omega
      simp only [rank_cons, hrank, Nat.mul_add, Nat.mul_one]
      omega

/-- The vector without a step has the greatest rank. -/
theorem advance_none {sizes indices other : List Nat} (hvalid : Valid sizes indices)
    (h : advance sizes indices = none) (hother : Valid sizes other) :
    rank sizes other ≤ rank sizes indices := by
  induction sizes generalizing indices other with
  | nil =>
    cases hother
    exact Nat.le_refl 0
  | cons size sizes ih =>
    obtain ⟨i, is, hi, his, rfl⟩ := List.forall₂_cons_right_iff.mp hvalid
    obtain ⟨j, js, hj, hjs, rfl⟩ := List.forall₂_cons_right_iff.mp hother
    by_cases hroom : i + 1 < size
    · simp [advance_cons, if_pos hroom] at h
    · simp only [advance_cons, if_neg hroom, Option.map_eq_none_iff] at h
      have hrest := Nat.mul_le_mul_left size (ih his h hjs)
      simp only [rank_cons]
      omega

/-- The vector of zeros, from which the loop starts. -/
theorem valid_zeros {sizes : List Nat} (h : ∀ size ∈ sizes, 0 < size) :
    Valid sizes (List.replicate sizes.length 0) := by
  induction sizes with
  | nil => exact List.Forall₂.nil
  | cons size sizes ih =>
    exact List.Forall₂.cons (h size List.mem_cons_self)
      (ih fun size hsize => h size (List.mem_cons_of_mem _ hsize))

theorem rank_zeros (sizes : List Nat) : rank sizes (List.replicate sizes.length 0) = 0 := by
  induction sizes with
  | nil => rfl
  | cons size sizes ih => simp [List.replicate_succ, rank_cons, ih]

/-- There are as many ranks as vectors. -/
theorem rank_lt_prod {sizes indices : List Nat} (h : Valid sizes indices) :
    rank sizes indices < sizes.prod := by
  induction sizes generalizing indices with
  | nil => simp [rank]
  | cons size sizes ih =>
    obtain ⟨i, is, hi, his, rfl⟩ := List.forall₂_cons_right_iff.mp h
    rw [rank_cons, List.prod_cons]
    calc i + size * rank sizes is
        < size + size * rank sizes is := Nat.add_lt_add_right hi _
      _ = size * (rank sizes is + 1) := by rw [Nat.mul_succ, Nat.add_comm]
      _ ≤ size * sizes.prod := Nat.mul_le_mul_left size (ih his)

end Catplay.Library.Odometer
