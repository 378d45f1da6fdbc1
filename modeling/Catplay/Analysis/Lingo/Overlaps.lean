import Catplay.Analysis.Lingo.Meaning
import Catplay.Model.Lingo.PredicateAnalysis

/-!
# Soundness of the predicate analysis

The analysis tries one representative for each stretch of the `u64` range that the literals leave
together. Under an assignment of the kind it is made for, every predicate it accepts has the truth
value of one of the combinations it tries, so what it finds in none of them holds nowhere.
-/

set_option autoImplicit false

namespace Catplay.Analysis.Lingo

open Catplay.Model.Lingo Catplay.Model.Lingo.PredicateAnalysis Catplay.Library

/-! ## Keys -/

theorem key_injective {first second : PredicateToken} (h : key first = key second) :
    first = second := by
  have hlist : (key first).toList = (key second).toList := congrArg String.toList h
  clear h
  cases first <;> cases second <;> simp_all [key, String.toList_append]
  · exact String.toList_inj.mp hlist

/-! ## The assignments the analysis is made for -/

/-- The field holds what the analysis takes it to hold: a `u64`, or a truth value. -/
def FitsKind (env : Assignment) (token : PredicateToken) : Kind → Prop
  | .integer => ∃ x : UInt64, meaning env (.field token) = some (x.toNat : Int)
  | .bool => ∃ b : Bool, meaning env (.field token) = some b.toInt

/-- **Every field is present and within what its use asks for**: a `u64` where it is compared with
an integer, 0 or 1 where it is taken for a truth value. -/
def Fits (env : Assignment) : PredicateExpr → Prop
  | .field token => FitsKind env token .bool
  | .compare _ left right =>
    match fieldLiteral left right with
    | some (token, .integer _) => FitsKind env token .integer
    | some (token, .bool _) => FitsKind env token .bool
    | none => True
  | .and left right | .or left right => Fits env left ∧ Fits env right
  | .not inner => Fits env inner
  | .integer _ | .bool _ => True

/-! ## What the inspection establishes -/

def kindOf : Value → Kind
  | .integer _ => .integer
  | .bool _ => .bool

/-- The comparison is one the analysis supports, and it is recorded. -/
def InspectedComparison (found : Inspection) (op : Comparison) (left right : PredicateExpr) :
    Prop :=
  (∃ token n, fieldLiteral left right = some (token, .integer n) ∧
      found.fields.lookup (key token) = some .integer ∧ n ∈ found.constants) ∨
    (∃ token b, fieldLiteral left right = some (token, .bool b) ∧
      Comparison.isEquality op = true ∧ found.fields.lookup (key token) = some .bool) ∨
    ∃ a b, literal left = some a ∧ literal right = some b ∧ kindOf a = kindOf b ∧
      (Comparison.isEquality op = true ∨ kindOf a = .integer)

/-- The expression is one the analysis supports, and its fields and literals are recorded. -/
def Inspected (found : Inspection) : PredicateExpr → Prop
  | .bool _ => True
  | .integer _ => False
  | .field token => found.fields.lookup (key token) = some .bool
  | .compare op left right => InspectedComparison found op left right
  | .and left right | .or left right => Inspected found left ∧ Inspected found right
  | .not inner => Inspected found inner

/-- Nothing that was recorded is lost. -/
structure Extends (before after : Inspection) : Prop where
  fields : ∀ name kind, before.fields.lookup name = some kind →
    after.fields.lookup name = some kind
  constants : ∀ c ∈ before.constants, c ∈ after.constants

theorem Extends.refl (found : Inspection) : Extends found found :=
  ⟨fun _ _ h => h, fun _ h => h⟩

theorem Extends.trans {a b c : Inspection} (hab : Extends a b) (hbc : Extends b c) :
    Extends a c :=
  ⟨fun name kind h => hbc.fields name kind (hab.fields name kind h),
    fun n h => hbc.constants n (hab.constants n h)⟩

theorem Inspected.mono {before after : Inspection} {expr : PredicateExpr}
    (hext : Extends before after) (h : Inspected before expr) : Inspected after expr := by
  induction expr with
  | bool _ => trivial
  | integer _ => exact h
  | field token => exact hext.fields _ _ h
  | compare op left right _ _ =>
    obtain ⟨token, n, hshape, hkind, hmem⟩ | ⟨token, b, hshape, hop, hkind⟩ | hliterals := h
    · exact .inl ⟨token, n, hshape, hext.fields _ _ hkind, hext.constants _ hmem⟩
    · exact .inr (.inl ⟨token, b, hshape, hop, hext.fields _ _ hkind⟩)
    · exact .inr (.inr hliterals)
  | and left right ihl ihr | or left right ihl ihr => exact ⟨ihl h.1, ihr h.2⟩
  | not inner ih => exact ih h

variable {constants : List UInt64} {n : UInt64} {after : List (String × Kind)} {kind : Kind}
  {token : PredicateToken} {left right : PredicateExpr} {maxAssignments : Nat}
  {predicates : List PredicateExpr}

theorem mem_insertConstant {c : UInt64} :
    n ∈ insertConstant c constants ↔ n = c ∨ n ∈ constants := by
  unfold insertConstant
  split
  · constructor
    · exact .inr
    · rintro (rfl | h)
      · assumption
      · exact h
  · simp [List.mem_orderedInsert]

/-- Recording a new entry finds it again and keeps the others. -/
theorem lookup_orderedInsert {α : Type} {name other : String} {a : α}
    {entries : List (String × α)} (habsent : entries.lookup name = none) :
    (entries.orderedInsert (fun a b => a.1 ≤ b.1) (name, a)).lookup other =
      if other = name then some a else entries.lookup other := by
  induction entries with
  | nil => by_cases h : other = name <;> simp [List.lookup_cons, h, beq_eq_false_iff_ne.mpr]
  | cons entry entries ih =>
    obtain ⟨entryName, b⟩ := entry
    have hne : name ≠ entryName := by
      rintro rfl
      simp at habsent
    have hrest : entries.lookup name = none := by
      simpa [List.lookup_cons, beq_eq_false_iff_ne.mpr hne] using habsent
    simp only [List.orderedInsert]
    split
    · by_cases h : other = name <;> simp [List.lookup_cons, h, beq_eq_false_iff_ne.mpr]
    · by_cases hentry : other = entryName
      · subst hentry
        simp [hne.symm]
      · simp only [List.lookup_cons, beq_eq_false_iff_ne.mpr hentry]
        exact ih hrest

/-- A recorded field is found; the other entries stay as they were. -/
theorem fieldKind_ok {before : List (String × Kind)}
    (h : fieldKind token kind before = .ok after) (name : String) :
    after.lookup name = if name = key token then some kind else before.lookup name := by
  unfold fieldKind at h
  split at h
  · cases h
  · split at h
    · rename_i old hold
      split at h
      · cases h
      · rename_i hsame
        obtain rfl := Except.ok.inj h
        by_cases hname : name = key token
        · rw [if_pos hname, hname, hold, not_not.mp hsame]
        · rw [if_neg hname]
    · rename_i hnone
      obtain rfl := Except.ok.inj h
      exact lookup_orderedInsert hnone

theorem fieldKind_old {before : List (String × Kind)} (h : fieldKind token kind before = .ok after)
    {old : Kind} (hold : before.lookup (key token) = some old) : old = kind := by
  unfold fieldKind at h
  split at h
  · cases h
  · rw [hold] at h
    by_contra hne
    simp [hne] at h

theorem extends_fieldKind {found : Inspection} (h : fieldKind token kind found.fields = .ok after)
    (hconstants : ∀ c ∈ found.constants, c ∈ constants) : Extends found ⟨after, constants⟩ := by
  refine ⟨fun name old hold => ?_, hconstants⟩
  rw [fieldKind_ok h name]
  by_cases hname : name = key token
  · subst hname
    rw [if_pos rfl, fieldKind_old h hold]
  · rwa [if_neg hname]

/-- Every recorded field holds what its kind asks for. -/
def FitsFound (env : Assignment) (found : Inspection) : Prop :=
  ∀ token kind, found.fields.lookup (key token) = some kind → FitsKind env token kind

theorem fitsFound_fieldKind {env : Assignment} {found : Inspection}
    (h : fieldKind token kind found.fields = .ok after) (hfits : FitsKind env token kind)
    (hfound : FitsFound env found) : FitsFound env ⟨after, constants⟩ := by
  intro other otherKind hother
  rw [fieldKind_ok h] at hother
  by_cases hname : key other = key token
  · rw [if_pos hname, Option.some.injEq] at hother
    rw [key_injective hname, ← hother]
    exact hfits
  · rw [if_neg hname] at hother
    exact hfound other otherKind hother

/-- What `inspect` leaves behind of an expression it accepts. -/
structure Accepted (env : Assignment) (expr : PredicateExpr) (before after : Inspection) :
    Prop where
  inspected : Inspected after expr
  kept : Extends before after
  fits : Fits env expr → FitsFound env before → FitsFound env after

theorem accepted_comparison {env : Assignment} {op : Comparison}
    {before after : Inspection} (h : inspectComparison op left right before = .ok after) :
    Accepted env (.compare op left right) before after := by
  unfold inspectComparison at h
  cases hshape : fieldLiteral left right with
  | some found =>
    obtain ⟨token, literal⟩ := found
    cases literal with
    | integer n =>
      simp only [hshape] at h
      cases hfield : fieldKind token .integer before.fields with
      | error reason =>
        rw [hfield] at h
        cases h
      | ok fields =>
        rw [hfield] at h
        obtain rfl := Except.ok.inj h
        refine ⟨.inl ⟨token, n, hshape, ?_, mem_insertConstant.mpr (.inl rfl)⟩,
          extends_fieldKind hfield fun c hc => mem_insertConstant.mpr (.inr hc), ?_⟩
        · rw [fieldKind_ok hfield, if_pos rfl]
        · intro hfits
          simp only [Fits, hshape] at hfits
          exact fitsFound_fieldKind hfield hfits
    | bool b =>
      simp only [hshape] at h
      by_cases hop : Comparison.isEquality op = true
      · simp only [hop, if_true] at h
        cases hfield : fieldKind token .bool before.fields with
        | error reason =>
          rw [hfield] at h
          cases h
        | ok fields =>
          rw [hfield] at h
          obtain rfl := Except.ok.inj h
          refine ⟨.inr (.inl ⟨token, b, hshape, hop, ?_⟩), extends_fieldKind hfield fun _ hc => hc,
            ?_⟩
          · rw [fieldKind_ok hfield, if_pos rfl]
          · intro hfits
            simp only [Fits, hshape] at hfits
            exact fitsFound_fieldKind hfield hfits
      · simp [hop] at h
  | none =>
    simp only [hshape] at h
    cases hleft : literal left with
    | none => simp [hleft] at h
    | some a =>
      cases hright : literal right with
      | none => simp [hleft, hright] at h
      | some b =>
        simp only [hleft, hright] at h
        split at h
        · cases h
        · rename_i hcomparable
          obtain rfl := Except.ok.inj h
          refine ⟨.inr (.inr ⟨a, b, hleft, hright, ?_⟩), Extends.refl _, fun _ hfound => hfound⟩
          cases a <;> cases b <;> cases hop : Comparison.isEquality op <;>
            simp_all [sameKind, kindOf]

theorem accepted_inspect {env : Assignment} {expr : PredicateExpr} {before after : Inspection}
    (h : inspect expr before = .ok after) : Accepted env expr before after := by
  induction expr generalizing before after with
  | bool _ =>
    obtain rfl := Except.ok.inj h
    exact ⟨trivial, Extends.refl _, fun _ hfound => hfound⟩
  | integer _ => cases h
  | field token =>
    simp only [inspect] at h
    cases hfield : fieldKind token .bool before.fields with
    | error reason =>
      rw [hfield] at h
      cases h
    | ok fields =>
      rw [hfield] at h
      obtain rfl := Except.ok.inj h
      refine ⟨?_, extends_fieldKind hfield fun _ hc => hc, fitsFound_fieldKind hfield⟩
      show fields.lookup (key token) = some .bool
      rw [fieldKind_ok hfield, if_pos rfl]
  | compare op left right _ _ => exact accepted_comparison h
  | and left right ihl ihr | or left right ihl ihr =>
    simp only [inspect] at h
    cases hleft : inspect left before with
    | error reason =>
      rw [hleft] at h
      cases h
    | ok middle =>
      rw [hleft] at h
      have hl := ihl hleft
      have hr := ihr h
      exact ⟨⟨hl.inspected.mono hr.kept, hr.inspected⟩, hl.kept.trans hr.kept,
        fun hfits hfound => hr.fits hfits.2 (hl.fits hfits.1 hfound)⟩
  | not inner ih =>
    have hinner := ih h
    exact ⟨hinner.inspected, hinner.kept, hinner.fits⟩

/-! ## Representatives -/

theorem exists_greatest (constants : List UInt64) (x : UInt64) :
    (∀ c ∈ constants, x < c) ∨
      ∃ m ∈ constants, m ≤ x ∧ ∀ c ∈ constants, c ≤ x → c ≤ m := by
  induction constants with
  | nil => simp
  | cons c rest ih =>
    by_cases hc : c ≤ x
    · right
      obtain hall | ⟨m, hm, hmx, hgreatest⟩ := ih
      · refine ⟨c, List.mem_cons_self, hc, fun d hd hdx => ?_⟩
        obtain rfl | hd := List.mem_cons.mp hd
        · exact UInt64.le_refl d
        · exact absurd hdx (UInt64.not_le.mpr (hall d hd))
      · by_cases hcm : c ≤ m
        · refine ⟨m, List.mem_cons_of_mem c hm, hmx, fun d hd hdx => ?_⟩
          obtain rfl | hd := List.mem_cons.mp hd
          · exact hcm
          · exact hgreatest d hd hdx
        · refine ⟨c, List.mem_cons_self, hc, fun d hd hdx => ?_⟩
          obtain rfl | hd := List.mem_cons.mp hd
          · exact UInt64.le_refl d
          · exact UInt64.le_trans (hgreatest d hd hdx) (UInt64.le_of_lt (UInt64.not_le.mp hcm))
    · obtain hall | ⟨m, hm, hmx, hgreatest⟩ := ih
      · left
        intro d hd
        obtain rfl | hd := List.mem_cons.mp hd
        · exact UInt64.not_le.mp hc
        · exact hall d hd
      · right
        refine ⟨m, List.mem_cons_of_mem c hm, hmx, fun d hd hdx => ?_⟩
        obtain rfl | hd := List.mem_cons.mp hd
        · exact absurd hdx hc
        · exact hgreatest d hd hdx

/-- The loop body of `integers`. -/
theorem mem_integers_step {c : UInt64} {found : List UInt64} :
    n ∈ (let found := insertConstant c found
      let found := if 0 < c then insertConstant (c - 1) found else found
      if c < 18446744073709551615 then insertConstant (c + 1) found else found) ↔
    n ∈ found ∨ n = c ∨ (0 < c ∧ n = c - 1) ∨ (c < 18446744073709551615 ∧ n = c + 1) := by
  by_cases hlow : 0 < c <;> by_cases hhigh : c < 18446744073709551615 <;>
    simp only [hlow, hhigh, if_true, if_false, mem_insertConstant] <;> grind

theorem mem_integers :
    n ∈ integers constants ↔ n = 0 ∨ n = 18446744073709551615 ∨ ∃ c ∈ constants,
      n = c ∨ (0 < c ∧ n = c - 1) ∨ (c < 18446744073709551615 ∧ n = c + 1) := by
  have hfold (found : List UInt64) : n ∈ constants.foldl
      (fun integers n =>
        let integers := insertConstant n integers
        let integers := if 0 < n then insertConstant (n - 1) integers else integers
        if n < 18446744073709551615 then insertConstant (n + 1) integers else integers) found ↔
      n ∈ found ∨ ∃ c ∈ constants,
        n = c ∨ (0 < c ∧ n = c - 1) ∨ (c < 18446744073709551615 ∧ n = c + 1) := by
    induction constants generalizing found with
    | nil => simp
    | cons c rest ih =>
      rw [List.foldl_cons, ih, mem_integers_step]
      simp only [List.exists_mem_cons_iff]
      exact or_assoc
  unfold integers
  rw [hfold]
  simp only [List.mem_cons, List.not_mem_nil, or_false]
  exact or_assoc

/-- **Every integer has a representative that compares with the literals as it does.** -/
theorem exists_representative (constants : List UInt64) (x : UInt64) :
    ∃ r ∈ integers constants, ∀ c ∈ constants, (r < c ↔ x < c) ∧ (c < r ↔ c < x) := by
  obtain hall | ⟨m, hm, hmx, hgreatest⟩ := exists_greatest constants x
  · refine ⟨0, mem_integers.mpr (.inl rfl), fun c hc => ?_⟩
    have hxc : x.toNat < c.toNat := hall c hc
    simp only [UInt64.lt_iff_toNat_lt, UInt64.toNat_zero]
    omega
  · by_cases hsame : m = x
    · exact ⟨x, mem_integers.mpr (.inr (.inr ⟨m, hm, .inl hsame.symm⟩)),
        fun c _ => ⟨Iff.rfl, Iff.rfl⟩⟩
    · have hmx' : m.toNat < x.toNat := by
        have : m.toNat ≠ x.toNat := fun h => hsame (UInt64.toNat_inj.mp h)
        have : m.toNat ≤ x.toNat := hmx
        omega
      have hx := x.toNat_lt
      have hsucc : (m + 1).toNat = m.toNat + 1 := by
        rw [UInt64.toNat_add]
        simp
        omega
      have hbelow : m < 18446744073709551615 := by
        rw [UInt64.lt_iff_toNat_lt]
        simp
        omega
      refine ⟨m + 1, mem_integers.mpr (.inr (.inr ⟨m, hm, .inr (.inr ⟨hbelow, rfl⟩)⟩)),
        fun c hc => ?_⟩
      have hgap : c.toNat ≤ x.toNat → c.toNat ≤ m.toNat := hgreatest c hc
      simp only [UInt64.lt_iff_toNat_lt, hsucc]
      omega

/-! ## Evaluation under a representative -/

/-- The value stands for what the field holds, as far as the literals tell. -/
def Represents (env : Assignment) (constants : List UInt64) (token : PredicateToken) :
    Value → Prop
  | .bool b => meaning env (.field token) = some b.toInt
  | .integer r => ∃ x : UInt64, meaning env (.field token) = some (x.toNat : Int) ∧
      ∀ c ∈ constants, (r < c ↔ x < c) ∧ (c < r ↔ c < x)

/-- Every recorded field has a value in `chosen` that stands for what it holds. -/
def Stands (env : Assignment) (found : Inspection) (chosen : List (String × Value)) : Prop :=
  ∀ token kind, found.fields.lookup (key token) = some kind →
    ∃ value, chosen.lookup (key token) = some value ∧ kindOf value = kind ∧
      Represents env found.constants token value

theorem fieldLiteral_cases {value : Value} (h : fieldLiteral left right = some (token, value)) :
    (left = .field token ∧ literal right = some value) ∨
      (right = .field token ∧ literal left = some value) := by
  cases left <;> cases right <;> simp_all [fieldLiteral, literal]

theorem literal_cases {expr : PredicateExpr} {value : Value} (h : literal expr = some value) :
    (∃ n, expr = .integer n ∧ value = .integer n) ∨ ∃ b, expr = .bool b ∧ value = .bool b := by
  cases expr <;> simp_all [literal]

section Truth

variable {env : Assignment} {found : Inspection} {chosen : List (String × Value)}

/-- Two integers on the same side of each other compare alike. -/
theorem holds_of_same_order (op : Comparison) {a b c d : Int} (hlt : a < b ↔ c < d)
    (hgt : b < a ↔ d < c) : op.holds a b = op.holds c d := by
  cases op <;> simp only [Comparison.holds, decide_eq_decide] <;> omega

theorem compareValues_integer (op : Comparison) (a b : UInt64) :
    compareValues op (.integer a) (.integer b) = some (op.holds a.toNat b.toNat) := by
  have hinj : a = b ↔ (a.toNat : Int) = b.toNat := by
    rw [Int.natCast_inj, UInt64.toNat_inj]
  cases op <;> simp [compareValues, Comparison.holds, hinj]

theorem compareValues_bool (op : Comparison) (a b : Bool) (hop : Comparison.isEquality op = true) :
    compareValues op (.bool a) (.bool b) = some (op.holds a.toInt b.toInt) := by
  cases op <;> cases a <;> cases b <;> simp_all [compareValues, Comparison.holds, Comparison.isEquality]

theorem value_comparison {op : Comparison} {left right : PredicateExpr} {a b : Value}
    {result : Bool} (hleft : value chosen left = some a) (hright : value chosen right = some b)
    (hresult : compareValues op a b = some result) :
    value chosen (.compare op left right) = some (.bool result) := by
  simp [value, hleft, hright, hresult]

theorem value_compare (hstands : Stands env found chosen) {op : Comparison}
    {left right : PredicateExpr} (h : InspectedComparison found op left right) :
    value chosen (.compare op left right) =
      some (.bool (isTrue (meaning env (.compare op left right)))) := by
  simp only [meaning, isTrue_toInt]
  obtain ⟨token, n, hshape, hkind, hmem⟩ | ⟨token, b, hshape, hop, hkind⟩ |
    ⟨a, b, ha, hb, hsame, hop⟩ := h
  · obtain ⟨chosenValue, hlookup, hkindOf, hrepresents⟩ := hstands token .integer hkind
    obtain ⟨r, rfl⟩ : ∃ r, chosenValue = .integer r := by
      cases chosenValue <;> simp_all [kindOf]
    have hfield : value chosen (.field token) = some (.integer r) := hlookup
    have hconstant : value chosen (.integer n) = some (.integer n) := rfl
    obtain ⟨x, hx, hcompare⟩ := hrepresents
    obtain ⟨hlow, hhigh⟩ := hcompare n hmem
    simp only [UInt64.lt_iff_toNat_lt, ← Int.ofNat_lt] at hlow hhigh
    obtain ⟨rfl, hliteral⟩ | ⟨rfl, hliteral⟩ := fieldLiteral_cases hshape
    · obtain ⟨m, rfl, hm⟩ | ⟨b, -, hb⟩ := literal_cases hliteral
      · obtain rfl := Value.integer.inj hm
        rw [value_comparison hfield hconstant (compareValues_integer op r n), hx]
        simp only [meaning, predicate_eval.compare]
        rw [holds_of_same_order op hlow hhigh]
      · cases hb
    · obtain ⟨m, rfl, hm⟩ | ⟨b, -, hb⟩ := literal_cases hliteral
      · obtain rfl := Value.integer.inj hm
        rw [value_comparison hconstant hfield (compareValues_integer op n r), hx]
        simp only [meaning, predicate_eval.compare]
        rw [holds_of_same_order op hhigh hlow]
      · cases hb
  · obtain ⟨chosenValue, hlookup, hkindOf, hrepresents⟩ := hstands token .bool hkind
    obtain ⟨v, rfl⟩ : ∃ v, chosenValue = .bool v := by
      cases chosenValue <;> simp_all [kindOf]
    have hfield : value chosen (.field token) = some (.bool v) := hlookup
    have hconstant : value chosen (.bool b) = some (.bool b) := rfl
    obtain ⟨rfl, hliteral⟩ | ⟨rfl, hliteral⟩ := fieldLiteral_cases hshape
    · obtain ⟨m, -, hm⟩ | ⟨c, rfl, hc⟩ := literal_cases hliteral
      · cases hm
      · obtain rfl := Value.bool.inj hc
        rw [value_comparison hfield hconstant (compareValues_bool op v b hop), hrepresents]
        rfl
    · obtain ⟨m, -, hm⟩ | ⟨c, rfl, hc⟩ := literal_cases hliteral
      · cases hm
      · obtain rfl := Value.bool.inj hc
        rw [value_comparison hconstant hfield (compareValues_bool op b v hop), hrepresents]
        rfl
  · obtain ⟨n, rfl, rfl⟩ | ⟨c, rfl, rfl⟩ := literal_cases ha
    · obtain ⟨m, rfl, rfl⟩ | ⟨d, rfl, rfl⟩ := literal_cases hb
      · exact value_comparison rfl rfl (compareValues_integer op n m)
      · cases hsame
    · obtain ⟨m, rfl, rfl⟩ | ⟨d, rfl, rfl⟩ := literal_cases hb
      · cases hsame
      · have hequality : Comparison.isEquality op = true := by simpa [kindOf] using hop
        exact value_comparison rfl rfl (compareValues_bool op c d hequality)

/-- **The analysis evaluates to the truth of the predicate**, and does not panic. -/
theorem value_of_stands (hstands : Stands env found chosen) {expr : PredicateExpr}
    (h : Inspected found expr) :
    value chosen expr = some (.bool (isTrue (meaning env expr))) := by
  induction expr with
  | bool b => cases b <;> rfl
  | integer _ => exact h.elim
  | field token =>
    obtain ⟨chosenValue, hlookup, hkindOf, hrepresents⟩ := hstands token .bool h
    obtain ⟨v, rfl⟩ : ∃ v, chosenValue = .bool v := by
      cases chosenValue <;> simp_all [kindOf]
    show chosen.lookup (key token) = _
    rw [hlookup, hrepresents, isTrue_toInt]
  | compare op left right _ _ => exact value_compare hstands h
  | and left right ihl ihr =>
    simp only [value, ihl h.1, ihr h.2, meaning, isTrue_toInt]
    cases isTrue (meaning env left) <;> rfl
  | or left right ihl ihr =>
    simp only [value, ihl h.1, ihr h.2, meaning, isTrue_toInt]
    cases isTrue (meaning env left) <;> rfl
  | not inner ih =>
    simp only [value, ih h, meaning, isTrue_toInt]
    rfl

theorem truth_of_stands (hstands : Stands env found chosen) {expr : PredicateExpr}
    (h : Inspected found expr) : truth expr chosen = some (isTrue (meaning env expr)) := by
  unfold truth
  rw [value_of_stands hstands h]
  rfl

end Truth

/-! ## The search -/

/-- The combination `env` makes both predicates true. -/
def MakesBothTrue (left right : PredicateExpr) (env : List (String × Value)) : Prop :=
  truth left env = some true ∧ truth right env = some true

/-- **A search that ends disjoint has tried every index vector from its start on.** -/
theorem search_disjoint {budget : Nat}
    {domains : List (String × List Value)} {indices other : List Nat}
    (hvalid : Odometer.Valid (domains.map (·.2.length)) indices)
    (h : search left right maxAssignments domains budget indices = some .disjoint)
    (hother : Odometer.Valid (domains.map (·.2.length)) other)
    (hrank : Odometer.rank (domains.map (·.2.length)) indices ≤
      Odometer.rank (domains.map (·.2.length)) other) :
    ∃ env, assignment domains other = some env ∧ ¬ MakesBothTrue left right env := by
  induction budget generalizing indices with
  | zero => simp [search] at h
  | succ budget ih =>
    cases hassignment : assignment domains indices with
    | none => simp [search, hassignment] at h
    | some env =>
      have hcurrent : ¬ MakesBothTrue left right env := by
        rintro ⟨hleft, hright⟩
        simp [search, hassignment, hleft, hright] at h
      simp only [search, hassignment] at h
      split at h
      · cases h
      · cases h
      · obtain hsame | hlater := Nat.eq_or_lt_of_le hrank
        · rw [← Odometer.rank_injective hvalid hother hsame]
          exact ⟨env, hassignment, hcurrent⟩
        · cases hnext : Odometer.advance (domains.map (·.2.length)) indices with
          | none =>
            have := Odometer.advance_none hvalid hnext hother
            omega
          | some next =>
            rw [hnext] at h
            obtain ⟨hnextValid, hnextRank⟩ := Odometer.advance_some hvalid hnext
            exact ih hnextValid h (by omega)

/-- Any choice of a value for every domain is an index vector. -/
theorem exists_indices {fields : List (String × Kind)} {constants : List UInt64}
    {choice : String × Kind → Value} (h : ∀ entry, choice entry ∈ domain constants entry.2) :
    ∃ indices,
      Odometer.Valid ((fields.map fun entry => (entry.1, domain constants entry.2)).map
        (·.2.length)) indices ∧
      assignment (fields.map fun entry => (entry.1, domain constants entry.2)) indices =
        some (fields.map fun entry => (entry.1, choice entry)) := by
  induction fields with
  | nil => exact ⟨[], List.Forall₂.nil, rfl⟩
  | cons entry rest ih =>
    obtain ⟨indices, hvalid, hassignment⟩ := ih
    obtain ⟨index, hindex, hvalue⟩ := List.getElem_of_mem (h entry)
    refine ⟨index :: indices, List.Forall₂.cons hindex hvalid, ?_⟩
    unfold assignment at hassignment ⊢
    rw [List.map_cons, List.zip_cons_cons, List.mapM_cons, hassignment]
    simp [List.getElem?_eq_getElem hindex, hvalue]

theorem lookup_choice {fields : List (String × Kind)} {choice : String × Kind → Value}
    {name : String} (h : fields.lookup name = some kind) :
    (fields.map fun entry => (entry.1, choice entry)).lookup name = some (choice (name, kind)) := by
  induction fields with
  | nil => cases h
  | cons entry rest ih =>
    obtain ⟨entryName, entryKind⟩ := entry
    by_cases hname : name = entryName
    · subst hname
      simp only [List.lookup_cons, beq_self_eq_true, Option.some.injEq] at h
      simp [h]
    · simp only [List.lookup_cons, beq_eq_false_iff_ne.mpr hname, List.map_cons] at h ⊢
      exact ih h

/-- A field that fits its kind has a representative in the domain of the kind. -/
theorem exists_choice (env : Assignment) (constants : List UInt64) (entry : String × Kind) :
    ∃ value ∈ domain constants entry.2, ∀ token, key token = entry.1 →
      FitsKind env token entry.2 →
        kindOf value = entry.2 ∧ Represents env constants token value := by
  obtain ⟨name, kind⟩ := entry
  by_cases hfits : ∃ token, key token = name ∧ FitsKind env token kind
  · obtain ⟨token, rfl, hfits⟩ := hfits
    cases kind with
    | bool =>
      obtain ⟨b, hb⟩ := hfits
      refine ⟨.bool b, by cases b <;> simp [domain], fun other hother _ => ⟨rfl, ?_⟩⟩
      rw [key_injective hother]
      exact hb
    | integer =>
      obtain ⟨x, hx⟩ := hfits
      obtain ⟨r, hr, hcompare⟩ := exists_representative constants x
      refine ⟨.integer r, by simpa [domain] using hr, fun other hother _ => ⟨rfl, ?_⟩⟩
      rw [key_injective hother]
      exact ⟨x, hx, hcompare⟩
  · have hnone : ∀ token, key token = name → FitsKind env token kind → False :=
      fun token hname htoken => hfits ⟨token, hname, htoken⟩
    cases kind with
    | bool => exact ⟨.bool false, by simp [domain], fun token hname htoken =>
        (hnone token hname htoken).elim⟩
    | integer => exact ⟨.integer 0, by simp [domain, mem_integers], fun token hname htoken =>
        (hnone token hname htoken).elim⟩

theorem domain_length_pos (fields : List (String × Kind)) (constants : List UInt64) :
    ∀ size ∈ (fields.map fun entry => (entry.1, domain constants entry.2)).map (·.2.length),
      0 < size := by
  intro size hsize
  simp only [List.map_map, List.mem_map, Function.comp_apply] at hsize
  obtain ⟨⟨name, kind⟩, -, rfl⟩ := hsize
  cases kind with
  | bool => simp [domain]
  | integer =>
    have hzero : (0 : UInt64) ∈ integers constants := mem_integers.mpr (.inl rfl)
    simpa [domain] using List.length_pos_of_mem hzero

/-- **What the analysis calls disjoint never holds together** under an assignment that fits. -/
theorem not_both_of_disjoint
    {env : Assignment} (h : checkOverlap left right maxAssignments = some .disjoint)
    (hleft : Fits env left) (hright : Fits env right) : ¬ (Holds env left ∧ Holds env right) := by
  unfold checkOverlap at h
  cases hinspect : inspect left ⟨[], []⟩ >>= inspect right with
  | error reason => simp [hinspect] at h
  | ok found =>
    simp only [hinspect] at h
    cases hfirst : inspect left ⟨[], []⟩ with
    | error reason =>
      rw [hfirst] at hinspect
      cases hinspect
    | ok middle =>
      rw [hfirst] at hinspect
      have hacceptedLeft : Accepted env left ⟨[], []⟩ middle := accepted_inspect hfirst
      have hacceptedRight : Accepted env right middle found := accepted_inspect hinspect
      have hfits : FitsFound env found :=
        hacceptedRight.fits hright (hacceptedLeft.fits hleft fun _ _ hnone => by cases hnone)
      choose choice hmem hrepresents using exists_choice env found.constants
      obtain ⟨indices, hvalid, hassignment⟩ := @exists_indices found.fields _ choice hmem
      have hstands : Stands env found (found.fields.map fun entry => (entry.1, choice entry)) :=
        fun token kind hkind => ⟨choice (key token, kind), lookup_choice hkind,
          hrepresents (key token, kind) token rfl (hfits token kind hkind)⟩
      have hzeros : Odometer.Valid
          ((found.fields.map fun entry => (entry.1, domain found.constants entry.2)).map
            (·.2.length)) (List.replicate _ 0) := Odometer.valid_zeros (domain_length_pos _ _)
      obtain ⟨chosen, hchosen, hnot⟩ := search_disjoint hzeros (by simpa using h) hvalid
        ((Odometer.rank_zeros _).trans_le (Nat.zero_le _))
      rw [hassignment, Option.some.injEq] at hchosen
      subst hchosen
      rintro ⟨holdsLeft, holdsRight⟩
      refine hnot ⟨?_, ?_⟩
      · rw [truth_of_stands hstands (hacceptedLeft.inspected.mono hacceptedRight.kept), holdsLeft]
      · rw [truth_of_stands hstands hacceptedRight.inspected, holdsRight]

/-! ## Coverage -/

theorem holds_foldl_or {env : Assignment} {first : PredicateExpr} {rest : List PredicateExpr} :
    Holds env (rest.foldl .or first) ↔ Holds env first ∨ ∃ p ∈ rest, Holds env p := by
  induction rest generalizing first with
  | nil => simp
  | cons p rest ih => rw [List.foldl_cons, ih, holds_or, List.exists_mem_cons_iff, or_assoc]

theorem holds_union {env : Assignment} :
    Holds env (union predicates) ↔ ∃ p ∈ predicates, Holds env p := by
  cases predicates with
  | nil => simp [union, holds_bool]
  | cons first rest => rw [union, holds_foldl_or, List.exists_mem_cons_iff]

theorem fits_union {env : Assignment}
    (h : ∀ p ∈ predicates, Fits env p) : Fits env (union predicates) := by
  cases predicates with
  | nil => trivial
  | cons first rest =>
    obtain ⟨hfirst, hrest⟩ := List.forall_mem_cons.mp h
    unfold union
    clear h
    induction rest generalizing first with
    | nil => exact hfirst
    | cons p rest ih =>
      obtain ⟨hp, hrest⟩ := List.forall_mem_cons.mp hrest
      exact ih (.or first p) ⟨hfirst, hp⟩ hrest

/-- **Of what the analysis calls exhaustive, something holds** under an assignment that fits. -/
theorem exists_holds_of_exhaustive
    {env : Assignment} (h : checkCoverage predicates maxAssignments = some .exhaustive)
    (hfits : ∀ p ∈ predicates, Fits env p) : ∃ p ∈ predicates, Holds env p := by
  have hdisjoint : checkOverlap (.not (union predicates)) (.bool true) maxAssignments =
      some .disjoint := by
    unfold checkCoverage at h
    cases hoverlap : checkOverlap (.not (union predicates)) (.bool true) maxAssignments with
    | none => simp [hoverlap] at h
    | some overlap => cases overlap <;> simp_all
  have hnot := not_both_of_disjoint hdisjoint (fits_union hfits) trivial
  rw [holds_not, holds_bool] at hnot
  exact holds_union.mp (by simpa using hnot)

/-! ## The compiled programs -/

/-- **The analysis is sound for the interpreter** on the assignments it is made for: of two
predicates it calls disjoint, not both programs are true, and of a list it calls exhaustive, one
program is true. -/
theorem analysis_sound (maxAssignments : Nat) (fieldSlots : String → Option UInt8)
    {env : Assignment} {fields : FieldValues} {programs : PredicateExpr → List FlatPredicateToken} :
    (∀ left right, checkOverlap left right maxAssignments = some .disjoint →
      (∀ p ∈ [left, right], predicateProgramRust p fieldSlots = .ok (programs p) ∧
        InSlots env fieldSlots fields p ∧ Fits env p) →
      ¬ (PredicateProgram.eval (programs left) fields (env.context false) = true ∧
        PredicateProgram.eval (programs right) fields (env.context false) = true)) ∧
    ∀ predicates, checkCoverage predicates maxAssignments = some .exhaustive →
      (∀ p ∈ predicates, predicateProgramRust p fieldSlots = .ok (programs p) ∧
        InSlots env fieldSlots fields p ∧ Fits env p) →
      ∃ p ∈ predicates,
        PredicateProgram.eval (programs p) fields (env.context false) = true := by
  constructor
  · rintro left right hdisjoint hboth ⟨hleft, hright⟩
    obtain ⟨hprogramLeft, hslotsLeft, hfitsLeft⟩ := hboth left (by simp)
    obtain ⟨hprogramRight, hslotsRight, hfitsRight⟩ := hboth right (by simp)
    exact not_both_of_disjoint hdisjoint hfitsLeft hfitsRight
      ⟨(eval_decode_iff hslotsLeft hprogramLeft).mp hleft,
        (eval_decode_iff hslotsRight hprogramRight).mp hright⟩
  · intro predicates hexhaustive hall
    obtain ⟨p, hp, hholds⟩ :=
      exists_holds_of_exhaustive hexhaustive fun p hp => (hall p hp).2.2
    obtain ⟨hprogram, hslots, -⟩ := hall p hp
    exact ⟨p, hp, (eval_decode_iff hslots hprogram).mpr hholds⟩

/-- `selector == n`. -/
def selectorIs (n : UInt64) : PredicateExpr :=
  .compare .eq (.field (.field "selector")) (.integer n)

/-- The program of a predicate whose fields all have the slot 0. -/
def programAtZero (p : PredicateExpr) : List FlatPredicateToken :=
  match predicateProgramRust p (fun _ => some 0) with
  | .ok program => program
  | .error _ => []

/-- Every field holds `value`, or none does. -/
def everyField (value : Option Int) : Assignment := ⟨fun _ => value, 0, false⟩

theorem analysis_sound_selector :
    ¬ (PredicateProgram.eval (programAtZero (selectorIs 3)) (fun _ => some 3)
          ((everyField (some 3)).context false) = true ∧
        PredicateProgram.eval (programAtZero (selectorIs 4)) (fun _ => some 3)
          ((everyField (some 3)).context false) = true) ∧
      ∃ p ∈ [selectorIs 3, .not (selectorIs 3)],
        PredicateProgram.eval (programAtZero p) (fun _ => some 3)
          ((everyField (some 3)).context false) = true := by
  have hslots (p : PredicateExpr) :
      InSlots (everyField (some 3)) (fun _ => some 0) (fun _ => some 3) p :=
    fun _ _ => ⟨0, rfl, rfl⟩
  have hfits (n : UInt64) : Fits (everyField (some 3)) (selectorIs n) := ⟨3, rfl⟩
  constructor
  · refine (analysis_sound 100 fun _ => some 0).1 (selectorIs 3) (selectorIs 4) ?_ ?_
    · exact (by decide : checkOverlap (selectorIs 3) (selectorIs 4) 100 = some .disjoint)
    · intro p hp
      obtain rfl | rfl : p = selectorIs 3 ∨ p = selectorIs 4 := by simpa using hp
      · exact ⟨rfl, hslots _, hfits 3⟩
      · exact ⟨rfl, hslots _, hfits 4⟩
  · refine (analysis_sound 100 fun _ => some 0).2 [selectorIs 3, .not (selectorIs 3)] ?_ ?_
    · exact (by decide :
        checkCoverage [selectorIs 3, .not (selectorIs 3)] 100 = some .exhaustive)
    · intro p hp
      obtain rfl | rfl : p = selectorIs 3 ∨ p = .not (selectorIs 3) := by simpa using hp
      · exact ⟨rfl, hslots _, hfits 3⟩
      · exact ⟨rfl, hslots _, hfits 3⟩

/-- A negative field satisfies two predicates that the analysis calls disjoint, and an absent one
neither of two that it calls exhaustive. -/
theorem analysis_unsound_signed_or_absent :
    (checkOverlap (.compare .lt (.field (.field "level")) (.integer 0)) (.bool true) 100000 =
          some .disjoint ∧
        PredicateProgram.eval
          (programAtZero (.compare .lt (.field (.field "level")) (.integer 0)))
          (fun _ => some (-1)) ((everyField (some (-1))).context false) = true ∧
        PredicateProgram.eval (programAtZero (.bool true)) (fun _ => some (-1))
          ((everyField (some (-1))).context false) = true) ∧
      checkCoverage
          [selectorIs 3, .compare .ne (.field (.field "selector")) (.integer 3)] 100000 =
        some .exhaustive ∧
      ∀ p ∈ [selectorIs 3, .compare .ne (.field (.field "selector")) (.integer 3)],
        PredicateProgram.eval (programAtZero p) (fun _ => none)
          ((everyField none).context false) = false := by
  decide

end Catplay.Analysis.Lingo
