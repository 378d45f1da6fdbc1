import Mathlib.Data.List.Basic

/-!
# Computations that may fail or panic

A computation of type `Exec ε α` returns a value, fails with an error of type `ε`, or
panics. `Meets x P` says that `x` does not panic and that what it returns has `P`; the file has
the rule for each way a computation is put together, so that panic freedom is read off the
checks that guard a step.
-/

set_option autoImplicit false

namespace Catplay.Library.Checked

inductive Stop (ε : Type)
  | error (e : ε)
  | panic
  deriving DecidableEq, Repr

abbrev Exec (ε α : Type) := Except (Stop ε) α

variable {ε ζ α β : Type}

/-- Return the error `e`. -/
def fail (e : ε) : Exec ε α := .error (.error e)

/-- `ok_or`. -/
def orFail (x : Option α) (e : ε) : Exec ε α :=
  match x with
  | some a => .ok a
  | none => fail e

/-- `map_err`. -/
def mapError (f : ε → ζ) (x : Exec ε α) : Exec ζ α :=
  match x with
  | .ok a => .ok a
  | .error (.error e) => .error (.error (f e))
  | .error .panic => .error .panic

/-- An index into a slice; out of bounds it panics. -/
def index (l : List α) (i : Nat) : Exec ε α :=
  match l[i]? with
  | some a => .ok a
  | none => .error .panic

/-- `&l[start..stop]`; out of bounds it panics. -/
def slice (l : List α) (start stop : Nat) : Exec ε (List α) :=
  if start ≤ stop ∧ stop ≤ l.length then .ok ((l.drop start).take (stop - start))
  else .error .panic

/-- `l.get(start..stop)`. -/
def getSlice (l : List α) (start stop : Nat) : Option (List α) :=
  if start ≤ stop ∧ stop ≤ l.length then some ((l.drop start).take (stop - start)) else none

/-- **No panic**, and what is returned has `P`. -/
def Meets (x : Exec ε α) (P : α → Prop) : Prop :=
  match x with
  | .ok a => P a
  | .error (.error _) => True
  | .error .panic => False

variable {P : α → Prop} {a : α} {x : Exec ε α} {f : α → Exec ε β} {b : β}

theorem meets_ok (h : P a) : Meets (.ok a : Exec ε α) P := h

theorem meets_pure (h : P a) : Meets (pure a : Exec ε α) P := h

theorem meets_fail (e : ε) (P : α → Prop) : Meets (fail e : Exec ε α) P := trivial

/-- **A branch.** -/
theorem meets_ite {c : Prop} [Decidable c] {y : Exec ε α}
    (hpos : c → Meets x P) (hneg : ¬c → Meets y P) : Meets (if c then x else y) P := by
  by_cases h : c
  · rw [if_pos h]
    exact hpos h
  · rw [if_neg h]
    exact hneg h

theorem Meets.mono {Q : α → Prop} (h : Meets x P) (hle : ∀ a, P a → Q a) :
    Meets x Q := by
  cases x with
  | ok a => exact hle a h
  | error stop =>
    cases stop with
    | error e => trivial
    | panic => exact h

/-- **One after the other.** -/
theorem Meets.bind {Q : β → Prop}
    (h : Meets x P) (hf : ∀ a, P a → Meets (f a) Q) : Meets (x >>= f) Q := by
  cases x with
  | ok a => exact hf a h
  | error stop =>
    cases stop with
    | error e => trivial
    | panic => exact h

theorem Meets.mapError (h : Meets x P) (f : ε → ζ) :
    Meets (mapError f x) P := by
  cases x with
  | ok a => exact h
  | error stop =>
    cases stop with
    | error e => trivial
    | panic => exact h

theorem meets_orFail {x : Option α} (h : ∀ a, x = some a → P a) (e : ε) :
    Meets (orFail x e) P := by
  cases x with
  | some a => exact h a rfl
  | none => trivial

theorem meets_index {l : List α} {i : Nat} (h : i < l.length) (hP : P l[i]) :
    Meets (index l i : Exec ε α) P := by
  unfold index
  rw [List.getElem?_eq_getElem h]
  exact hP

theorem meets_slice {l : List α} {start stop : Nat} (hle : start ≤ stop) (hin : stop ≤ l.length)
    {P : List α → Prop} (hP : P ((l.drop start).take (stop - start))) :
    Meets (slice l start stop : Exec ε (List α)) P := by
  unfold slice
  rw [if_pos ⟨hle, hin⟩]
  exact hP

/-- A loop each of whose rounds meets what it should. -/
theorem meets_mapM {P : β → Prop} {l : List α}
    (h : ∀ a ∈ l, Meets (f a) P) : Meets (l.mapM f) fun bs => ∀ b ∈ bs, P b := by
  induction l with
  | nil =>
    apply meets_pure
    intro b hb
    cases hb
  | cons a l ih =>
    rw [List.mapM_cons]
    apply (h a List.mem_cons_self).bind
    intro b hb
    apply (ih fun c hc => h c (List.mem_cons_of_mem a hc)).bind
    intro bs hbs
    apply meets_pure
    intro c hc
    cases List.mem_cons.mp hc with
    | inl heq => rw [heq]; exact hb
    | inr hmem => exact hbs c hmem

theorem meets_foldlM {f : β → α → Exec ε β} {I : β → Prop} {l : List α}
    (h : ∀ a ∈ l, ∀ b, I b → Meets (f b a) I) (hb : I b) : Meets (l.foldlM f b) I := by
  induction l generalizing b with
  | nil => exact meets_pure hb
  | cons a l ih =>
    rw [List.foldlM_cons]
    apply (h a List.mem_cons_self b hb).bind
    intro c hc
    exact ih (fun d hd => h d (List.mem_cons_of_mem a hd)) hc

/-! ## What lies at a known place -/

theorem index_append (front back : List α) (a : α) {i : Nat} (h : i = front.length) :
    (index (front ++ a :: back) i : Exec ε α) = .ok a := by
  unfold index
  rw [h, List.getElem?_append_right (Nat.le_refl _), Nat.sub_self]
  rfl

theorem slice_append (front bytes back : List α) {start stop : Nat}
    (hstart : start = front.length) (hstop : stop = front.length + bytes.length) :
    (slice (front ++ (bytes ++ back)) start stop : Exec ε (List α)) = .ok bytes := by
  unfold slice
  rw [if_pos (by rw [List.length_append, List.length_append]; omega), hstart, hstop,
    List.drop_left, Nat.add_sub_cancel_left, List.take_left]

/-- The elements stand in the list from position `pos` on. -/
def Holds (l : List α) (pos : Nat) (part : List α) : Prop := part <+: l.drop pos

theorem holds_end (l part : List α) : Holds (l ++ part) l.length part :=
  ⟨[], by rw [List.append_nil, List.drop_left]⟩

namespace Holds

variable {l : List α} {pos : Nat}

variable {part back : List α}

theorem append (h : Holds l pos part) (more : List α) :
    Holds (l ++ more) pos part := by
  unfold Holds
  rw [List.drop_append]
  exact List.IsPrefix.trans h (List.prefix_append _ _)

theorem left {front : List α} (h : Holds l pos (front ++ back)) : Holds l pos front :=
  (List.prefix_append front back).trans h

theorem right {front : List α} (h : Holds l pos (front ++ back)) :
    Holds l (pos + front.length) back := by
  obtain ⟨rest, hrest⟩ := h
  refine ⟨rest, ?_⟩
  rw [← List.drop_drop, ← hrest, List.append_assoc, List.drop_left]

theorem tail {a : α} (h : Holds l pos (a :: back)) : Holds l (pos + 1) back :=
  right (show Holds l pos ([a] ++ back) from h)

theorem length_le (h : Holds l pos part) (hne : part ≠ []) :
    pos + part.length ≤ l.length := by
  have hle := List.IsPrefix.length_le h
  have hpos := List.length_pos_iff.mpr hne
  rw [List.length_drop] at hle
  omega

theorem index {a : α} (h : Holds l pos (a :: back)) :
    (index l pos : Exec ε α) = .ok a := by
  obtain ⟨rest, hrest⟩ := h
  have hget : l[pos]? = some a := by
    rw [← Nat.add_zero pos, ← List.getElem?_drop, ← hrest]
    rfl
  unfold Checked.index
  rw [hget]

theorem slice (h : Holds l pos part) (hne : part ≠ []) {stop : Nat}
    (hstop : stop = pos + part.length) : (slice l pos stop : Exec ε (List α)) = .ok part := by
  have hle := h.length_le hne
  unfold Checked.slice
  rw [if_pos ⟨by omega, by omega⟩, hstop, Nat.add_sub_cancel_left]
  exact congrArg _ (List.prefix_iff_eq_take.mp h).symm

end Holds

/-! ## What a value says of the steps before it -/

theorem bind_eq_ok :
    x >>= f = .ok b ↔ ∃ a, x = .ok a ∧ f a = .ok b := by
  cases x with
  | ok a =>
    constructor
    · intro h
      exact ⟨a, rfl, h⟩
    · rintro ⟨_, ⟨rfl⟩, h⟩
      exact h
  | error stop =>
    constructor
    · intro h
      cases h
    · rintro ⟨_, h, _⟩
      cases h

theorem ok_bind (a : α) (f : α → Exec ε β) : ((.ok a : Exec ε α) >>= f) = f a := rfl

theorem error_bind (stop : Stop ε) (f : α → Exec ε β) :
    ((.error stop : Exec ε α) >>= f) = .error stop := rfl

/-- A loop that ends with values has a value for each of its rounds. -/
theorem ok_of_mapM_ok {l : List α} {bs : List β} (h : l.mapM f = .ok bs) :
    ∀ a ∈ l, ∃ b, f a = .ok b := by
  induction l generalizing bs with
  | nil =>
    intro a ha
    cases ha
  | cons c l ih =>
    rw [List.mapM_cons] at h
    obtain ⟨b, hb, h⟩ := bind_eq_ok.mp h
    obtain ⟨cs, hcs, -⟩ := bind_eq_ok.mp h
    intro a ha
    cases List.mem_cons.mp ha with
    | inl heq => exact ⟨b, heq ▸ hb⟩
    | inr hmem => exact ih hcs a hmem

theorem ok_of_foldlM_ok {f : β → α → Exec ε β} {l : List α} {c : β}
    (h : l.foldlM f b = .ok c) : ∀ a ∈ l, ∃ b c, f b a = .ok c := by
  induction l generalizing b with
  | nil =>
    intro a ha
    cases ha
  | cons d l ih =>
    rw [List.foldlM_cons] at h
    obtain ⟨e, he, h⟩ := bind_eq_ok.mp h
    intro a ha
    cases List.mem_cons.mp ha with
    | inl heq => exact ⟨b, e, heq ▸ he⟩
    | inr hmem => exact ih h a hmem

/-- What a computation that meets `P` returns has `P`. -/
theorem Meets.of_ok (h : Meets x P) (hx : x = .ok a) :
    P a := by
  rw [hx] at h
  exact h

/-- A computation that meets anything ends with a value or with an error. -/
theorem Meets.ends (h : Meets x P) :
    (∃ a, x = .ok a ∧ P a) ∨ ∃ e, x = .error (.error e) := by
  cases x with
  | ok a => exact .inl ⟨a, rfl, h⟩
  | error stop =>
    cases stop with
    | error e => exact .inr ⟨e, rfl⟩
    | panic => exact absurd h id

end Catplay.Library.Checked
