import Mathlib.Data.List.Basic

/-!
# Runs of a deterministic machine with partial steps

A machine is a function `step : σ → ι → Option σ`: from a state and an input it
gives the next state, or `none` where the input cannot be taken (the program
stops there with a panic). `run step s is` feeds a list of inputs. The file has
the induction rules every safety statement over runs goes through: an invariant
kept by each step holds after each run (`run_invariant`), and the same for the
runs all of whose steps meet a condition on the state before the step
(`run_invariant_of_allSteps`), also in step with a second machine (`run_simulation`). Where the
condition is exact for a step it is exact for a run (`run_iff_allSteps`).
-/

set_option autoImplicit false

namespace Catplay.Library.Run

variable {σ ι : Type*}

/-- Feed the inputs one after another; `none` as soon as one cannot be taken. -/
def run (step : σ → ι → Option σ) : σ → List ι → Option σ
  | s, [] => some s
  | s, i :: is => (step s i).bind fun t => run step t is

/-- `C` holds of the state and the input at every step of the run. -/
def AllSteps (step : σ → ι → Option σ) (C : σ → ι → Prop) : σ → List ι → Prop
  | _, [] => True
  | s, i :: is => C s i ∧ ∀ t, step s i = some t → AllSteps step C t is

variable {step : σ → ι → Option σ}

/-- The empty run stays where it is. -/
@[simp] theorem run_nil (s : σ) : run step s [] = some s := rfl

/-- A run over a cons is one step and the rest of the run. -/
theorem run_cons_eq_some {s u : σ} {i : ι} {is : List ι} :
    run step s (i :: is) = some u ↔
      ∃ t, step s i = some t ∧ run step t is = some u := by
  simp [run, Option.bind_eq_some_iff]

/-- Runs compose. -/
theorem run_append {s u : σ} {is js : List ι} :
    run step s (is ++ js) = some u ↔
      ∃ t, run step s is = some t ∧ run step t js = some u := by
  induction is generalizing s with
  | nil => simp
  | cons i is ih =>
    simp only [List.cons_append, run_cons_eq_some, ih]
    constructor
    · rintro ⟨t, ht, v, hv, hu⟩
      exact ⟨v, ⟨t, ht, hv⟩, hu⟩
    · rintro ⟨v, ⟨t, ht, hv⟩, hu⟩
      exact ⟨t, ht, v, hv, hu⟩

/-- Two conditions on the steps of a run are one. -/
theorem AllSteps.and {C D : σ → ι → Prop} {s : σ} {is : List ι} (hC : AllSteps step C s is)
    (hD : AllSteps step D s is) : AllSteps step (fun s i => C s i ∧ D s i) s is := by
  induction is generalizing s with
  | nil => trivial
  | cons i is ih => exact ⟨⟨hC.1, hD.1⟩, fun t ht => ih (hC.2 t ht) (hD.2 t ht)⟩

/-- A decidable condition is checked along the run. -/
instance decidableAllSteps {C : σ → ι → Prop} [∀ s i, Decidable (C s i)] :
    ∀ (s : σ) (is : List ι), Decidable (AllSteps step C s is)
  | _, [] => .isTrue trivial
  | s, i :: is =>
    match h : step s i with
    | none => decidable_of_iff (C s i) (by simp [AllSteps, h])
    | some t =>
      have : Decidable (AllSteps step C t is) := decidableAllSteps t is
      decidable_of_iff (C s i ∧ AllSteps step C t is) (by simp [AllSteps, h])

/-- What holds of the inputs in every state holds at every step. -/
theorem allSteps_of_mem {C : σ → ι → Prop} {is : List ι} (h : ∀ i ∈ is, ∀ s, C s i) (s : σ) :
    AllSteps step C s is := by
  induction is generalizing s with
  | nil => trivial
  | cons i is ih =>
    exact ⟨h i List.mem_cons_self s, fun t _ => ih (fun j hj => h j (List.mem_cons_of_mem i hj)) t⟩

/-- A condition on the steps of a composed run. -/
theorem allSteps_append {C : σ → ι → Prop} {s : σ} {is js : List ι} :
    AllSteps step C s (is ++ js) ↔
      AllSteps step C s is ∧ ∀ t, run step s is = some t → AllSteps step C t js := by
  induction is generalizing s with
  | nil => simp [AllSteps]
  | cons i is ih =>
    simp only [List.cons_append, AllSteps, ih, run_cons_eq_some]
    constructor
    · rintro ⟨hhere, hlater⟩
      refine ⟨⟨hhere, fun t ht => (hlater t ht).1⟩, ?_⟩
      rintro u ⟨t, ht, hu⟩
      exact (hlater t ht).2 u hu
    · rintro ⟨⟨hhere, hfirst⟩, hsecond⟩
      exact ⟨hhere, fun t ht => ⟨hfirst t ht, fun u hu => hsecond u ⟨t, ht, hu⟩⟩⟩

/-- **Projection.** A run of a machine that carries history is a run of the machine without
it. -/
theorem run_project {τ : Type*} {step' : τ → ι → Option τ} (f : σ → τ)
    (hstep : ∀ s i t, step s i = some t → step' (f s) i = some (f t))
    {s u : σ} {is : List ι} (h : run step s is = some u) : run step' (f s) is = some (f u) := by
  induction is generalizing s with
  | nil =>
    obtain rfl := Option.some.inj h
    rfl
  | cons i is ih =>
    obtain ⟨t, ht, hu⟩ := run_cons_eq_some.mp h
    exact run_cons_eq_some.mpr ⟨f t, hstep s i t ht, ih hu⟩

/-- **The invariant rule.** What every step preserves, every run preserves. -/
theorem run_invariant (I : σ → Prop)
    (hstep : ∀ s i t, I s → step s i = some t → I t)
    {s u : σ} {is : List ι} (hs : I s) (h : run step s is = some u) : I u := by
  induction is generalizing s with
  | nil =>
    obtain rfl := Option.some.inj h
    exact hs
  | cons i is ih =>
    obtain ⟨t, ht, hu⟩ := run_cons_eq_some.mp h
    exact ih (hstep s i t hs ht) hu

/-- **The guarded invariant rule.** What every step that meets `C` preserves, every
run whose steps all meet `C` preserves. -/
theorem run_invariant_of_allSteps (I : σ → Prop) (C : σ → ι → Prop)
    (hstep : ∀ s i t, I s → C s i → step s i = some t → I t)
    {s u : σ} {is : List ι} (hs : I s) (hC : AllSteps step C s is)
    (h : run step s is = some u) : I u := by
  induction is generalizing s with
  | nil =>
    obtain rfl := Option.some.inj h
    exact hs
  | cons i is ih =>
    obtain ⟨t, ht, hu⟩ := run_cons_eq_some.mp h
    exact ih (hstep s i t hs hC.1 ht) (hC.2 t ht) hu

/-- **Equal conditions.** Two conditions that agree on the invariant, which one of them keeps, are
met by the same runs. -/
theorem allSteps_iff_of_invariant (I : σ → Prop) {C D : σ → ι → Prop}
    (hiff : ∀ s i, I s → (C s i ↔ D s i))
    (hstep : ∀ s i t, I s → D s i → step s i = some t → I t) {s : σ} {is : List ι} (hs : I s) :
    AllSteps step C s is ↔ AllSteps step D s is := by
  induction is generalizing s with
  | nil => exact Iff.rfl
  | cons i is ih =>
    constructor
    · rintro ⟨hhere, hlater⟩
      have hD : D s i := (hiff s i hs).mp hhere
      exact ⟨hD, fun t ht => (ih (hstep s i t hs hD ht)).mp (hlater t ht)⟩
    · rintro ⟨hhere, hlater⟩
      refine ⟨(hiff s i hs).mpr hhere, fun t ht => ?_⟩
      exact (ih (hstep s i t hs hhere ht)).mpr (hlater t ht)

/-- **Total projection.** Where a machine without some part of the state takes the same inputs, it
has the same runs. -/
theorem run_map_of_allSteps {τ : Type*} {step' : τ → ι → Option τ} (f : σ → τ) (I : σ → Prop)
    (C : σ → ι → Prop)
    (hmap : ∀ s i, I s → C s i → step' (f s) i = (step s i).map f)
    (hstep : ∀ s i, I s → C s i → ∀ t, step s i = some t → I t)
    {s : σ} {is : List ι} (hs : I s) (hC : AllSteps step C s is) :
    run step' (f s) is = (run step s is).map f := by
  induction is generalizing s with
  | nil => rfl
  | cons i is ih =>
    unfold run
    rw [hmap s i hs hC.1]
    cases ht : step s i with
    | none => rfl
    | some t => exact ih (hstep s i hs hC.1 t ht) (hC.2 t ht)

/-- **The progress rule.** Where every step that meets `C` can be taken and keeps the invariant,
every run whose steps all meet `C` can be taken; and what is told of such a step holds at each
step of it. -/
theorem run_progress (I : σ → Prop) (C D : σ → ι → Prop)
    (hstep : ∀ s i, I s → C s i → D s i ∧ ∃ t, step s i = some t ∧ I t)
    {s : σ} {is : List ι} (hs : I s) (hC : AllSteps step C s is) :
    AllSteps step D s is ∧ ∃ u, run step s is = some u ∧ I u := by
  induction is generalizing s with
  | nil => exact ⟨trivial, s, rfl, hs⟩
  | cons i is ih =>
    obtain ⟨hD, t, ht, hIt⟩ := hstep s i hs hC.1
    obtain ⟨hrest, u, hu, hIu⟩ := ih hIt (hC.2 t ht)
    refine ⟨⟨hD, fun t' ht' => ?_⟩, u, run_cons_eq_some.mpr ⟨t, ht, hu⟩, hIu⟩
    obtain rfl := Option.some.inj (ht.symm.trans ht')
    exact hrest

/-- **The simulation rule.** A machine that every step meeting `C` keeps in step with a total
machine `f` stays so along every run whose steps all meet `C`. -/
theorem run_simulation {τ : Type*} (f : τ → ι → τ) (R : σ → τ → Prop) (C : σ → ι → Prop)
    (hstep : ∀ s a i t, R s a → C s i → step s i = some t → R t (f a i))
    {s u : σ} {a : τ} {is : List ι} (hs : R s a) (hC : AllSteps step C s is)
    (h : run step s is = some u) : R u (is.foldl f a) := by
  induction is generalizing s a with
  | nil =>
    obtain rfl := Option.some.inj h
    exact hs
  | cons i is ih =>
    obtain ⟨t, ht, hu⟩ := run_cons_eq_some.mp h
    exact ih (hstep s a i t hs hC.1 ht) (hC.2 t ht) hu

/-- **The exact condition.** If a step from a state with `P` leads to one with `P` exactly when the
step meets `C`, then `P` holds along a run exactly when all its steps meet `C`. -/
theorem run_iff_allSteps (I P : σ → Prop) (C : σ → ι → Prop)
    (hstep : ∀ s i t, I s → P s → step s i = some t → I t ∧ (P t ↔ C s i))
    {s last : σ} {is : List ι} (hI : I s) (hP : P s) (hrun : run step s is = some last) :
    (∀ front t, front <+: is → run step s front = some t → P t) ↔ AllSteps step C s is := by
  induction is generalizing s with
  | nil =>
    refine ⟨fun _ => trivial, fun _ front t hfront ht => ?_⟩
    obtain rfl := List.prefix_nil.mp hfront
    obtain rfl := Option.some.inj ht
    exact hP
  | cons i is ih =>
    obtain ⟨t, ht, hrest⟩ := run_cons_eq_some.mp hrun
    obtain ⟨hIt, hiff⟩ := hstep s i t hI hP ht
    constructor
    · intro hall
      have hPt := hall [i] t (List.prefix_append [i] is) (run_cons_eq_some.mpr ⟨t, ht, rfl⟩)
      refine ⟨hiff.mp hPt, fun t' ht' => ?_⟩
      obtain rfl := Option.some.inj (ht.symm.trans ht')
      refine (ih hIt hPt hrest).mp fun front u hfront hu => ?_
      exact hall (i :: front) u ((List.prefix_cons_inj i).mpr hfront)
        (run_cons_eq_some.mpr ⟨t, ht, hu⟩)
    · rintro ⟨hhere, hlater⟩ front u hfront hu
      cases front with
      | nil =>
        obtain rfl := Option.some.inj hu
        exact hP
      | cons i' front =>
        obtain ⟨rfl, hfront'⟩ := List.cons_prefix_cons.mp hfront
        obtain ⟨t', ht', hu'⟩ := run_cons_eq_some.mp hu
        obtain rfl := Option.some.inj (ht.symm.trans ht')
        exact (ih hIt (hiff.mpr hhere) hrest).mpr (hlater t ht) front u hfront' hu'

/-! ## History -/

section History

variable {η : Type*} (note : σ → ι → σ → η → η)

/-- The machine with a history beside its state. -/
def withHistory (step : σ → ι → Option σ) (s : σ × η) (i : ι) : Option (σ × η) :=
  (step s.1 i).map fun t => (t, note s.1 i t s.2)

/-- A condition on the steps that does not speak of the history. -/
theorem allSteps_withHistory {C : σ → ι → Prop} {s : σ} {h : η} {is : List ι} :
    AllSteps (withHistory note step) (fun x i => C x.1 i) (s, h) is ↔ AllSteps step C s is := by
  induction is generalizing s h with
  | nil => exact Iff.rfl
  | cons i is ih =>
    unfold AllSteps
    refine and_congr_right fun _ => ⟨fun hall t ht => ?_, fun hall x hx => ?_⟩
    · exact ih.mp (hall (t, note s i t h) (Option.map_eq_some_iff.mpr ⟨t, ht, rfl⟩))
    · obtain ⟨t, ht, rfl⟩ := Option.map_eq_some_iff.mp hx
      exact ih.mpr (hall t ht)

end History

end Catplay.Library.Run
