import Catplay.Model.Fb.NalRewriter
import Catplay.Model.Video.AnnexB

/-!
# Emulation prevention and its removal

What `add_emulation_prevention` writes holds no start code, and the rewriter's own remover
undoes it: both count zeros and both start again behind an inserted byte. The remover of the
receiver keeps the two bytes before instead. It starts as if there were two zeros in front,
and it does not start again behind a byte it drops, so that it loses a three of the payload
exactly where `[0, 0] ++ d` has `0 0 3` (`undone_iff`).
-/

set_option autoImplicit false

namespace Catplay.Analysis.Fb

open Catplay.Model.Fb
open Catplay.Model.Video

/-! ## The loops from any state -/

/-- What `add_emulation_prevention` still writes when it has counted `z` zeros. -/
def addFrom : Nat → List UInt8 → List UInt8
  | _, [] => []
  | z, x :: d =>
    if 2 ≤ z ∧ x ≤ 3 then 3 :: x :: addFrom (if x = 0 then 1 else 0) d
    else x :: addFrom (if x = 0 then z + 1 else 0) d

/-- What `remove_emulation_prevention` still keeps when it has counted `z` zeros. -/
def removeFrom : Nat → List UInt8 → RewriteResult (List UInt8)
  | _, [] => .ok []
  | z, x :: e =>
    if 2 ≤ z ∧ x = 3 then removeFrom 0 e
    else if x = 0 then
      if z < i32Max then (removeFrom (z + 1) e).map (x :: ·) else .error .panic
    else (removeFrom 0 e).map (x :: ·)

/-- What `remove_emulation_prevention_bytes` still keeps behind the bytes `q` and `p`. -/
def nalRemoveFrom : UInt8 → UInt8 → List UInt8 → List UInt8
  | _, _, [] => []
  | q, p, x :: e =>
    if p = 0 ∧ q = 0 ∧ x = 3 then nalRemoveFrom q p e
    else x :: nalRemoveFrom p x e

theorem foldl_addStep (d out : List UInt8) (z : Nat) :
    (d.foldl addStep (out, z)).1 = out ++ addFrom z d := by
  induction d generalizing out z with
  | nil => simp [addFrom]
  | cons x d ih =>
    rw [List.foldl_cons]
    unfold addStep addFrom
    by_cases h : 2 ≤ z ∧ x ≤ 3
    · rw [if_pos h, if_pos h]
      exact (ih (out ++ [3] ++ [x]) _).trans (by simp)
    · rw [if_neg h, if_neg h]
      exact (ih (out ++ [x]) _).trans (by simp)

theorem addEmulationPrevention_eq (d : List UInt8) : addEmulationPrevention d = addFrom 0 d :=
  foldl_addStep d [] 0

theorem foldlM_removeStep (e out : List UInt8) (z : Nat) :
    (e.foldlM removeStep (out, z)).map Prod.fst = (removeFrom z e).map (out ++ ·) := by
  induction e generalizing out z with
  | nil => simp [removeFrom, pure, Except.pure, Except.map]
  | cons x e ih =>
    rw [List.foldlM_cons]
    have hmap : ∀ r : RewriteResult (List UInt8),
        r.map (fun l => out ++ [x] ++ l) = (r.map (x :: ·)).map (out ++ ·) := by
      intro r
      cases r with
      | ok l => simp [Except.map]
      | error stop => rfl
    unfold removeStep removeFrom
    dsimp only
    split
    · exact ih out 0
    · split
      · split
        · exact (ih (out ++ [x]) (z + 1)).trans (hmap _)
        · rfl
      · exact (ih (out ++ [x]) 0).trans (hmap _)

theorem removeEmulationPrevention_eq (e : List UInt8) :
    removeEmulationPrevention e = removeFrom 0 e := by
  have h := foldlM_removeStep e [] 0
  have hleft : removeEmulationPrevention e = (e.foldlM removeStep ([], 0)).map Prod.fst := by
    unfold removeEmulationPrevention
    cases e.foldlM removeStep ([], 0) with
    | ok s => rfl
    | error stop => rfl
  rw [hleft, h]
  cases removeFrom 0 e with
  | ok l => rfl
  | error stop => rfl

theorem foldl_nalRemoveStep (e out : List UInt8) (q p : UInt8) :
    (e.foldl Nal.removeStep ⟨out, p, q⟩).out = out ++ nalRemoveFrom q p e := by
  induction e generalizing out q p with
  | nil => simp [nalRemoveFrom]
  | cons x e ih =>
    rw [List.foldl_cons]
    unfold Nal.removeStep nalRemoveFrom
    dsimp only
    split
    · exact ih out q p
    · exact (ih (out ++ [x]) p x).trans (by simp)

theorem removeEmulationPreventionBytes_eq (e : List UInt8) :
    Nal.removeEmulationPreventionBytes e = nalRemoveFrom 0 0 e :=
  foldl_nalRemoveStep e [] 0 0

/-! ## No start code, and the rewriter's remover -/

/-- `[0, 0, b]` is not within two bytes after which something else comes. -/
theorem infix_cons_of_ne {x b : UInt8} {l : List UInt8} (hx : x ≠ 0)
    (h : [0, 0, b] <:+: x :: l) : [0, 0, b] <:+: l := by
  cases List.infix_cons_iff.mp h with
  | inl hp =>
    rw [List.cons_prefix_cons] at hp
    exact absurd hp.1.symm hx
  | inr h => exact h

theorem infix_cons_of_second {x y b : UInt8} {l : List UInt8} (hy : y ≠ 0)
    (h : [0, 0, b] <:+: x :: y :: l) : [0, 0, b] <:+: l := by
  cases List.infix_cons_iff.mp h with
  | inl hp =>
    rw [List.cons_prefix_cons, List.cons_prefix_cons] at hp
    exact absurd hp.2.1.symm hy
  | inr h => exact infix_cons_of_ne hy h

theorem infix_cons_of_third {x y c b : UInt8} {l : List UInt8} (hc : c ≠ 0) (hb : c ≠ b)
    (h : [0, 0, b] <:+: x :: y :: c :: l) : [0, 0, b] <:+: l := by
  cases List.infix_cons_iff.mp h with
  | inl hp =>
    rw [List.cons_prefix_cons, List.cons_prefix_cons, List.cons_prefix_cons] at hp
    exact absurd hp.2.2.1.symm hb
  | inr h => exact infix_cons_of_second hc h

/-- Behind at most two zeros nothing that is written makes a start code. -/
theorem addFrom_clear {b : UInt8} (hb : b ≤ 2) (d : List UInt8) (z : Nat) (hz : z ≤ 2) :
    ¬[0, 0, b] <:+: List.replicate z 0 ++ addFrom z d := by
  induction d generalizing z with
  | nil =>
    intro h
    have hlen := h.length_le
    simp [addFrom] at hlen
    omega
  | cons x d ih =>
    unfold addFrom
    by_cases hthree : 2 ≤ z ∧ x ≤ 3
    · obtain rfl : z = 2 := by omega
      rw [if_pos hthree]
      intro h
      have hne : (3 : UInt8) ≠ b := by
        rintro rfl
        exact absurd hb (by decide)
      have hrest := infix_cons_of_third (by decide) hne h
      by_cases hx : x = 0
      · rw [if_pos hx, hx] at hrest
        exact ih 1 (by omega) hrest
      · rw [if_neg hx] at hrest
        exact ih 0 (by omega) (infix_cons_of_ne hx hrest)
    · rw [if_neg hthree]
      by_cases hx : x = 0
      · have hsmall : z + 1 ≤ 2 := by
          have hlt : ¬2 ≤ z := fun h => hthree ⟨h, by rw [hx]; decide⟩
          omega
        rw [if_pos hx, hx]
        have hshift : List.replicate z (0 : UInt8) ++ 0 :: addFrom (z + 1) d =
            List.replicate (z + 1) 0 ++ addFrom (z + 1) d := by
          rw [List.replicate_succ', List.append_assoc]
          rfl
        rw [hshift]
        exact ih (z + 1) hsmall
      · rw [if_neg hx]
        intro h
        apply ih 0 (by omega)
        match z, hz with
        | 0, _ => exact infix_cons_of_ne hx h
        | 1, _ => exact infix_cons_of_second hx h
        | 2, _ =>
          have hne : x ≠ b := by
            rintro rfl
            exact hthree ⟨by omega, UInt8.le_trans hb (by decide)⟩
          exact infix_cons_of_third hx hne h

/-- **The rewriter's remover** counts as the adder does. -/
theorem removeFrom_addFrom (d : List UInt8) (z : Nat) (hz : z ≤ 2) :
    removeFrom z (addFrom z d) = .ok d := by
  have hmax : 2 < i32Max := by decide
  induction d generalizing z with
  | nil => rfl
  | cons x d ih =>
    unfold addFrom
    by_cases hthree : 2 ≤ z ∧ x ≤ 3
    · rw [if_pos hthree]
      unfold removeFrom
      rw [if_pos ⟨hthree.1, rfl⟩]
      unfold removeFrom
      rw [if_neg (by omega)]
      by_cases hx : x = 0
      · rw [if_pos hx, if_pos hx, if_pos (by omega), ih 1 (by omega)]
        rfl
      · rw [if_neg hx, if_neg hx, ih 0 (by omega)]
        rfl
    · rw [if_neg hthree]
      unfold removeFrom
      have hnot : ¬(2 ≤ z ∧ x = 3) := by
        rintro ⟨h, rfl⟩
        exact hthree ⟨h, by decide⟩
      rw [if_neg hnot]
      by_cases hx : x = 0
      · have hsmall : z + 1 ≤ 2 := by
          have hlt : ¬2 ≤ z := fun h => hthree ⟨h, by rw [hx]; decide⟩
          omega
        rw [if_pos hx, if_pos hx, if_pos (by omega), ih (z + 1) hsmall]
        rfl
      · rw [if_neg hx, if_neg hx, ih 0 (by omega)]
        rfl

/-- **What is written holds no start code.** -/
theorem add_clear {b : UInt8} (hb : b ≤ 2) (d : List UInt8) :
    ¬[0, 0, b] <:+: addEmulationPrevention d := by
  rw [addEmulationPrevention_eq]
  exact addFrom_clear hb d 0 (by omega)

/-- **The rewriter undoes its own escaping.** -/
theorem remove_add (d : List UInt8) :
    removeEmulationPrevention (addEmulationPrevention d) = .ok d := by
  rw [addEmulationPrevention_eq, removeEmulationPrevention_eq]
  exact removeFrom_addFrom d 0 (by omega)

/-! ## Where the counter of zeros overflows -/

/-- More zeros in a row than an `i32` counts. -/
def ZeroRun (e : List UInt8) : Prop := List.replicate (i32Max + 1) 0 <:+: e

/-- A byte that is no zero breaks a run off. -/
theorem run_infix_cons {n z : Nat} {x : UInt8} {e : List UInt8} (hz : z < n) (hx : x ≠ 0) :
    List.replicate n 0 <:+: List.replicate z 0 ++ x :: e ↔ List.replicate n 0 <:+: e := by
  constructor
  · intro h
    induction z with
    | zero =>
      cases List.infix_cons_iff.mp h with
      | inl hp =>
        obtain ⟨n, rfl⟩ : ∃ k, n = k + 1 := ⟨n - 1, by omega⟩
        rw [List.replicate_succ, List.cons_prefix_cons] at hp
        exact absurd hp.1.symm hx
      | inr h => exact h
    | succ z ih =>
      rw [List.replicate_succ, List.cons_append] at h
      cases List.infix_cons_iff.mp h with
      | inl hp =>
        obtain ⟨t, ht⟩ := hp
        have hget := congrArg (fun l : List UInt8 => l[z + 1]?) ht
        simp only [List.getElem?_append_left
          (show z + 1 < (List.replicate n (0 : UInt8)).length by simpa using hz),
          List.getElem?_replicate, if_pos hz, List.getElem?_cons_succ] at hget
        rw [List.getElem?_append_right (by simp), List.length_replicate, Nat.sub_self] at hget
        exact absurd (Option.some.inj hget).symm hx
      | inr h => exact ih (by omega) h
  · intro h
    exact h.trans ⟨List.replicate z 0 ++ [x], [], by simp⟩

theorem removeFrom_cases (e : List UInt8) (z : Nat) (hz : z ≤ i32Max) :
    ((∃ d, removeFrom z e = .ok d) ∧
      ¬List.replicate (i32Max + 1) 0 <:+: List.replicate z 0 ++ e) ∨
    (removeFrom z e = .error .panic ∧
      List.replicate (i32Max + 1) 0 <:+: List.replicate z 0 ++ e) := by
  have hmap : ∀ (x : UInt8) (r : RewriteResult (List UInt8)),
      ((∃ d, r = .ok d) → ∃ d, r.map (x :: ·) = .ok d) ∧
        (r = .error .panic → r.map (x :: ·) = .error .panic) := by
    intro x r
    exact ⟨fun ⟨d, h⟩ => ⟨x :: d, by rw [h]; rfl⟩, fun h => by rw [h]; rfl⟩
  induction e generalizing z with
  | nil =>
    refine .inl ⟨⟨[], rfl⟩, fun h => ?_⟩
    have hlen := h.length_le
    simp only [List.length_replicate, List.append_nil] at hlen
    omega
  | cons x e ih =>
    unfold removeFrom
    by_cases hskip : 2 ≤ z ∧ x = 3
    · have hne : x ≠ 0 := by
        rw [hskip.2]
        decide
      rw [if_pos hskip, run_infix_cons (by omega) hne]
      exact ih 0 (Nat.zero_le _)
    · rw [if_neg hskip]
      by_cases hx : x = 0
      · have hshift : List.replicate z (0 : UInt8) ++ x :: e =
            List.replicate (z + 1) 0 ++ e := by
          rw [List.replicate_succ', List.append_assoc, hx]
          rfl
        rw [if_pos hx, hshift]
        by_cases hmax : z < i32Max
        · rw [if_pos hmax]
          cases ih (z + 1) hmax with
          | inl h => exact .inl ⟨(hmap x _).1 h.1, h.2⟩
          | inr h => exact .inr ⟨(hmap x _).2 h.1, h.2⟩
        · obtain rfl : z = i32Max := by omega
          rw [if_neg hmax]
          exact .inr ⟨rfl, (List.prefix_append _ e).isInfix⟩
      · rw [if_neg hx, run_infix_cons (by omega) hx]
        cases ih 0 (Nat.zero_le _) with
        | inl h => exact .inl ⟨(hmap x _).1 h.1, h.2⟩
        | inr h => exact .inr ⟨(hmap x _).2 h.1, h.2⟩

/-- **The rewriter's remover panics** on a run of zeros that is too long, and nowhere else. -/
theorem remove_cases (e : List UInt8) :
    ((∃ d, removeEmulationPrevention e = .ok d) ∧ ¬ZeroRun e) ∨
      (removeEmulationPrevention e = .error .panic ∧ ZeroRun e) := by
  rw [removeEmulationPrevention_eq]
  exact removeFrom_cases e 0 (Nat.zero_le _)

/-! ## The receiver's remover -/

/-- The payload has a three behind two zeros, or would with two zeros in front of it. -/
def ThreeAfterZeros (d : List UInt8) : Prop := [0, 0, 3] <:+: [0, 0] ++ d

instance (d : List UInt8) : Decidable (ThreeAfterZeros d) :=
  inferInstanceAs (Decidable ([0, 0, 3] <:+: [0, 0] ++ d))

/-- The counted zeros are among the two bytes before. -/
def Before (z : Nat) (q p : UInt8) : Prop := (1 ≤ z → p = 0) ∧ (2 ≤ z → q = 0)

/-- The receiver keeps no more than the rewriter, and the same exactly where no byte of the
payload is a three behind two zeros. -/
theorem nalRemoveFrom_eq_iff (e d : List UInt8) (z : Nat) (q p : UInt8) (hbefore : Before z q p)
    (hremove : removeFrom z e = .ok d) :
    (nalRemoveFrom q p e).length ≤ d.length ∧
      (nalRemoveFrom q p e = d ↔ ¬[0, 0, 3] <:+: q :: p :: d) := by
  have hcons : ∀ {z : Nat} {x : UInt8} {e d : List UInt8},
      (removeFrom z e).map (x :: ·) = .ok d → ∃ c, removeFrom z e = .ok c ∧ d = x :: c := by
    intro z x e d h
    cases hr : removeFrom z e with
    | ok c =>
      rw [hr] at h
      exact ⟨c, rfl, (Except.ok.inj h).symm⟩
    | error stop =>
      rw [hr] at h
      cases h
  induction e generalizing d z q p with
  | nil =>
    obtain rfl : [] = d := Except.ok.inj hremove
    refine ⟨Nat.le_refl _, fun _ h => ?_, fun _ => rfl⟩
    have hlen := h.length_le
    simp at hlen
  | cons x e ih =>
    unfold removeFrom at hremove
    by_cases hskip : 2 ≤ z ∧ x = 3
    · -- both leave the byte out
      rw [if_pos hskip] at hremove
      have hp : p = 0 := hbefore.1 (by omega)
      have hq : q = 0 := hbefore.2 hskip.1
      unfold nalRemoveFrom
      rw [if_pos ⟨hp, hq, hskip.2⟩]
      exact ih d 0 q p ⟨fun h => absurd h (by omega), fun h => absurd h (by omega)⟩ hremove
    · rw [if_neg hskip] at hremove
      -- the rewriter keeps the byte
      obtain ⟨z', c, hc, rfl, hz'⟩ : ∃ z' c, removeFrom z' e = .ok c ∧ d = x :: c ∧
          Before z' p x := by
        by_cases hx : x = 0
        · rw [if_pos hx] at hremove
          split at hremove
          · obtain ⟨c, hc, hd⟩ := hcons hremove
            exact ⟨z + 1, c, hc, hd, fun _ => hx, fun h => hbefore.1 (by omega)⟩
          · cases hremove
        · rw [if_neg hx] at hremove
          obtain ⟨c, hc, hd⟩ := hcons hremove
          exact ⟨0, c, hc, hd, fun h => absurd h (by omega), fun h => absurd h (by omega)⟩
      unfold nalRemoveFrom
      by_cases hdrop : p = 0 ∧ q = 0 ∧ x = 3
      · -- the receiver leaves a byte of the payload out
        rw [if_pos hdrop]
        obtain ⟨rfl, rfl, rfl⟩ := hdrop
        have hlen : (nalRemoveFrom 0 0 e).length ≤ c.length := by
          refine (ih c z' 0 0 ⟨fun _ => rfl, fun _ => rfl⟩ ?_).1
          exact hc
        refine ⟨Nat.le_succ_of_le hlen, fun h => ?_, fun h => ?_⟩
        · rw [h, List.length_cons] at hlen
          omega
        · exact absurd (List.prefix_append [0, 0, 3] c).isInfix h
      · rw [if_neg hdrop]
        obtain ⟨hlen, hiff⟩ := ih c z' p x hz' hc
        refine ⟨Nat.succ_le_succ hlen, ?_⟩
        rw [List.cons_inj_right, hiff, not_iff_not]
        constructor
        · intro h
          exact List.infix_cons_iff.mpr (.inr h)
        · intro h
          cases List.infix_cons_iff.mp h with
          | inl hp =>
            simp only [List.cons_prefix_cons] at hp
            exact absurd ⟨hp.2.1.symm, hp.1.symm, hp.2.2.1.symm⟩ hdrop
          | inr h => exact h

/-- What a conforming encoder may write for a payload: no start code, no escape of a byte that
needs none, and no zero at the end. -/
structure Conforming (e : List UInt8) : Prop where
  clear : ∀ b : UInt8, b ≤ 2 → ¬[0, 0, b] <:+: e
  escaped : ∀ b : UInt8, 3 < b → ¬[0, 0, 3, b] <:+: e
  last : ¬[0] <:+ e

/-- Without three zeros in a row the rewriter's counter stays small. -/
theorem Conforming.remove_ok {e : List UInt8} (he : Conforming e) :
    ∃ d, removeEmulationPrevention e = .ok d := by
  cases remove_cases e with
  | inl h => exact h.1
  | inr h =>
    have hsplit : List.replicate (i32Max + 1) (0 : UInt8) =
        [0, 0, 0] ++ List.replicate (i32Max - 2) 0 := by
      have hsum : i32Max + 1 = 3 + (i32Max - 2) := rfl
      rw [hsum, List.replicate_add]
      rfl
    have hthree : [0, 0, 0] <:+: List.replicate (i32Max + 1) (0 : UInt8) := by
      rw [hsplit]
      exact (List.prefix_append [0, 0, 0] _).isInfix
    exact absurd (hthree.trans h.2) (he.clear 0 (by decide))

/-! ## Both removers -/

/-- What is written for `d` holds no start code, and both removers give `d` back. -/
def Undone (d : List UInt8) : Prop :=
  (∀ b : UInt8, b ≤ 2 → ¬[0, 0, b] <:+: addEmulationPrevention d) ∧
    removeEmulationPrevention (addEmulationPrevention d) = .ok d ∧
    Nal.removeEmulationPreventionBytes (addEmulationPrevention d) = d

/-- **Wherever the rewriter keeps `d`**, the receiver keeps it if and only if it has no three
behind two zeros. -/
theorem removers_agree_iff {e d : List UInt8} (h : removeEmulationPrevention e = .ok d) :
    Nal.removeEmulationPreventionBytes e = d ↔ ¬ThreeAfterZeros d := by
  rw [removeEmulationPrevention_eq] at h
  rw [removeEmulationPreventionBytes_eq]
  exact (nalRemoveFrom_eq_iff e d 0 0 0 ⟨fun _ => rfl, fun _ => rfl⟩ h).2

/-- **Escaping is undone** by both removers if and only if the payload has no three behind two
zeros, those in front of it included; and so the removers agree on what a conforming encoder
writes. -/
theorem undone_iff (d e : List UInt8) :
    (Undone d ↔ ¬ThreeAfterZeros d) ∧
      (Conforming e → ∃ r, removeEmulationPrevention e = .ok r ∧
        (Nal.removeEmulationPreventionBytes e = r ↔ ¬ThreeAfterZeros r)) := by
  refine ⟨?_, fun he => ?_⟩
  · rw [← removers_agree_iff (remove_add d)]
    constructor
    · intro h
      exact h.2.2
    · intro h
      exact ⟨fun b hb => add_clear hb d, remove_add d, h⟩
  · obtain ⟨r, hr⟩ := he.remove_ok
    exact ⟨r, hr, removers_agree_iff hr⟩

/-- A payload that is written as it is. -/
theorem undone_iff_slice :
    (Undone [0x65, 0x88] ↔ ¬ThreeAfterZeros [0x65, 0x88]) ∧
      ∃ r, removeEmulationPrevention [0x65, 0x88] = .ok r ∧
        (Nal.removeEmulationPreventionBytes [0x65, 0x88] = r ↔ ¬ThreeAfterZeros r) := by
  have hshort : ∀ l : List UInt8, 2 < l.length → ¬l <:+: [0x65, 0x88] := by
    intro l hl h
    exact absurd h.length_le (by simpa using hl)
  refine ⟨(undone_iff [0x65, 0x88] [0x65, 0x88]).1,
    (undone_iff [0x65, 0x88] [0x65, 0x88]).2 ⟨?_, ?_, by decide⟩⟩
  · intro b _
    exact hshort _ (by simp)
  · intro b _
    exact hshort _ (by simp)

/-- **A first byte of three is lost**, though there is no zero before it. -/
theorem first_three_lost : ¬Undone [3] := by
  rintro ⟨-, -, h⟩
  exact absurd h (by decide)

end Catplay.Analysis.Fb
