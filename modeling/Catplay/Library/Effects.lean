import Mathlib.Data.List.Basic

/-!
# Computations on a state that may fail

A computation of type `EStateM ε σ α` runs from a state; it returns a value and a state, or it
fails with an error and leaves a state all the same. `Ends x s P E` says how `x` ends from `s`:
what it returns has `P` together with the state left, and what it fails with has `E`. The file has
the rule for each way a computation is put together.
-/

set_option autoImplicit false

namespace Catplay.Library.Effects

variable {ε σ τ α β : Type}

/-- How `x` ends from `s`. -/
def Ends (x : EStateM ε σ α) (s : σ) (P : α → σ → Prop) (E : ε → σ → Prop) : Prop :=
  match x s with
  | .ok a t => P a t
  | .error e t => E e t

variable {E : ε → σ → Prop} {P : α → σ → Prop} {s : σ} {Q : β → σ → Prop} {x : EStateM ε σ α}

theorem ends_pure {a : α} (h : P a s) :
    Ends (pure a) s P E := h

theorem ends_throw {e : ε} (h : E e s) :
    Ends (throw e) s P E := h

/-- **One after the other.** -/
theorem Ends.bind {f : α → EStateM ε σ β}
    (h : Ends x s P E)
    (hf : ∀ a t, P a t → Ends (f a) t Q E) : Ends (x >>= f) s Q E := by
  unfold Ends at h ⊢
  show match EStateM.bind x f s with
    | .ok b t => Q b t
    | .error e t => E e t
  unfold EStateM.bind
  cases hx : x s with
  | ok a t =>
    rw [hx] at h
    exact hf a t h
  | error e t =>
    rw [hx] at h
    exact h

/-- **Reading the state.** -/
theorem ends_get_bind {f : σ → EStateM ε σ β} (h : Ends (f s) s Q E) : Ends (get >>= f) s Q E := h

/-- **Writing the state.** -/
theorem ends_modify_bind {f : Unit → EStateM ε σ β} {g : σ → σ}
    (h : Ends (f ()) (g s) Q E) : Ends (modify g >>= f) s Q E := h

/-- **A branch.** -/
theorem ends_ite {c : Prop} [Decidable c] {y : EStateM ε σ α}
    (hpos : c → Ends x s P E) (hneg : ¬c → Ends y s P E) :
    Ends (if c then x else y) s P E := by
  by_cases h : c
  · rw [if_pos h]
    exact hpos h
  · rw [if_neg h]
    exact hneg h

/-- **The rule of consequence.** -/
theorem Ends.mono {Q : α → σ → Prop} {F : ε → σ → Prop}
    (h : Ends x s P E) (hP : ∀ a t, P a t → Q a t) (hE : ∀ e t, E e t → F e t) :
    Ends x s Q F := by
  unfold Ends at h ⊢
  cases hx : x s with
  | ok a t =>
    rw [hx] at h
    exact hP a t h
  | error e t =>
    rw [hx] at h
    exact hE e t h

/-! ## Until the first failure -/

section Until

variable {ι π : Type}

/-- Do one after another, and stop at the first that fails: the values returned, and the end. -/
def untilFailure (f : ι → EStateM ε σ α) : List ι → σ → List α × EStateM.Result ε σ Unit
  | [], s => ([], .ok () s)
  | i :: is, s =>
    match f i s with
    | .ok a t => (a :: (untilFailure f is t).1, (untilFailure f is t).2)
    | .error e t => ([], .error e t)

/-- What `g` has for the items of a list, of which each moves the place on. -/
def along (g : π → ι → α) (next : π → ι → π) : π → List ι → List α
  | _, [] => []
  | p, i :: is => g p i :: along g next (next p i) is

/-- `C` holds of each item at its place. -/
def AllAlong (C : π → ι → Prop) (next : π → ι → π) : π → List ι → Prop
  | _, [] => True
  | p, i :: is => C p i ∧ AllAlong C next (next p i) is

theorem along_eq_map (g : ι → α) (p : π) (is : List ι) :
    along (fun _ i => g i) (fun p _ => p) p is = is.map g := by
  induction is with
  | nil => rfl
  | cons i is ih =>
    unfold along
    rw [ih, List.map_cons]

theorem allAlong_of_mem {C : ι → Prop} {next : π → ι → π} {is : List ι} (h : ∀ i ∈ is, C i)
    (p : π) : AllAlong (fun _ i => C i) next p is := by
  induction is generalizing p with
  | nil => trivial
  | cons i is ih =>
    exact ⟨h i List.mem_cons_self, ih (fun j hj => h j (List.mem_cons_of_mem i hj)) (next p i)⟩

/-- **The run rule.** Where each item that meets `C` at its place returns what `g` has for it there
and leaves what stands at the next place, the items return what `g` has along the list, as far as
they come. -/
theorem untilFailure_ends {f : ι → EStateM ε σ α} {I : π → σ → Prop} {C : π → ι → Prop}
    {g : π → ι → α} {next : π → ι → π} {E : ε → σ → Prop}
    (hstep : ∀ p i s, I p s → C p i → Ends (f i) s (fun a t => a = g p i ∧ I (next p i) t) E)
    (is : List ι) :
    ∀ (p : π) (s : σ), I p s → AllAlong C next p is →
      match (untilFailure f is s).2 with
      | .ok _ t => (untilFailure f is s).1 = along g next p is ∧ I (is.foldl next p) t
      | .error e t => (untilFailure f is s).1 <+: along g next p is ∧ E e t := by
  induction is with
  | nil =>
    intro p s hI _
    exact ⟨rfl, hI⟩
  | cons i is ih =>
    intro p s hI hC
    have hends := hstep p i s hI hC.1
    unfold Ends at hends
    unfold untilFailure along
    cases hf : f i s with
    | error e t =>
      rw [hf] at hends
      exact ⟨List.nil_prefix, hends⟩
    | ok a t =>
      rw [hf] at hends
      obtain ⟨rfl, ht⟩ := hends
      have hrest := ih (next p i) t ht hC.2
      dsimp only
      cases hrun : (untilFailure f is t).2 with
      | ok u t' =>
        rw [hrun] at hrest
        exact ⟨congrArg _ hrest.1, hrest.2⟩
      | error e t' =>
        rw [hrun] at hrest
        exact ⟨(List.prefix_cons_inj _).mpr hrest.1, hrest.2⟩

/-- **The run rule without places.** -/
theorem untilFailure_map {f : ι → EStateM ε σ α} {I : σ → Prop} {C : ι → Prop} {g : ι → α}
    {E : ε → σ → Prop} (hstep : ∀ i s, I s → C i → Ends (f i) s (fun a t => a = g i ∧ I t) E)
    {is : List ι} (hC : ∀ i ∈ is, C i) {s : σ} (hs : I s) :
    match (untilFailure f is s).2 with
    | .ok _ t => (untilFailure f is s).1 = is.map g ∧ I t
    | .error e t => (untilFailure f is s).1 <+: is.map g ∧ E e t := by
  have hrun := @untilFailure_ends ε σ α ι Unit f (fun _ => I) (fun _ => C) (fun _ => g)
    (fun p _ => p) E (fun _ => hstep) is () s hs (allAlong_of_mem hC ())
  rwa [along_eq_map] at hrun

end Until

end Catplay.Library.Effects
