import Catplay.Model.Lingo.Predicate

/-!
# What a predicate means

The integer that an expression stands for under an assignment of the fields, and the theorem that
the interpreter computes it from the compiled program.
-/

set_option autoImplicit false

namespace Catplay.Analysis.Lingo

open Catplay.Model.Lingo

/-- An assignment: the integer of every field that has one, the payload length and the flag. -/
structure Assignment where
  values : String → Option Int
  length : Nat
  hasTransactionId : Bool

/-- A missing or a zero integer is false. -/
def isTrue (value : Option Int) : Bool := value.any (· ≠ 0)

/-- **The meaning of an expression**: a comparison with a missing operand is false. -/
def meaning (env : Assignment) : PredicateExpr → Option Int
  | .field (.field name) => env.values name
  | .field .adjustedPayloadLength => some env.length
  | .field .hasTransactionId => some env.hasTransactionId.toInt
  | .integer value => some value.toNat
  | .bool value => some value.toInt
  | .compare op left right =>
    some (predicate_eval.compare op (meaning env left) (meaning env right)).toInt
  | .and left right => some (isTrue (meaning env left) && isTrue (meaning env right)).toInt
  | .or left right => some (isTrue (meaning env left) || isTrue (meaning env right)).toInt
  | .not inner => some (!isTrue (meaning env inner)).toInt

/-- The predicate is true. -/
def Holds (env : Assignment) (expr : PredicateExpr) : Prop := isTrue (meaning env expr) = true

instance (env : Assignment) (expr : PredicateExpr) : Decidable (Holds env expr) :=
  inferInstanceAs (Decidable (_ = true))

@[simp]
theorem isTrue_toInt (value : Bool) : isTrue (some value.toInt) = value := by
  cases value <;> rfl

@[simp]
theorem boolean_eq (value : Bool) : PredicateProgram.boolean value = value.toInt := by
  cases value <;> rfl

attribute [local simp] meaning

theorem holds_bool {env : Assignment} {value : Bool} : Holds env (.bool value) ↔ value = true := by
  simp [Holds, meaning]

theorem holds_and {env : Assignment} {left right : PredicateExpr} :
    Holds env (.and left right) ↔ Holds env left ∧ Holds env right := by
  simp [Holds, meaning]

theorem holds_or {env : Assignment} {left right : PredicateExpr} :
    Holds env (.or left right) ↔ Holds env left ∨ Holds env right := by
  simp [Holds, meaning]

theorem holds_not {env : Assignment} {inner : PredicateExpr} :
    Holds env (.not inner) ↔ ¬ Holds env inner := by
  simp [Holds, meaning]

/-! ## The fields an expression reads -/

section FieldNames

attribute [local simp] PredicateExpr.visitPrefix

variable (op : Comparison) (left right inner : PredicateExpr)

@[simp]
theorem fieldNames_compare :
    (PredicateExpr.compare op left right).fieldNames = left.fieldNames ++ right.fieldNames := by
  simp [PredicateExpr.fieldNames, PredicateExpr.visitPrefix]

@[simp]
theorem fieldNames_and :
    (PredicateExpr.and left right).fieldNames = left.fieldNames ++ right.fieldNames := by
  simp [PredicateExpr.fieldNames, PredicateExpr.visitPrefix]

@[simp]
theorem fieldNames_or :
    (PredicateExpr.or left right).fieldNames = left.fieldNames ++ right.fieldNames := by
  simp [PredicateExpr.fieldNames, PredicateExpr.visitPrefix]

@[simp]
theorem fieldNames_not : (PredicateExpr.not inner).fieldNames = inner.fieldNames := by
  simp [PredicateExpr.fieldNames, PredicateExpr.visitPrefix]

end FieldNames

/-! ## The interpreter -/

/-- The fields of `expr` have slots, which hold what the assignment gives the fields. -/
def InSlots (env : Assignment) (fieldSlots : String → Option UInt8) (fields : FieldValues)
    (expr : PredicateExpr) : Prop :=
  ∀ name ∈ expr.fieldNames, ∃ slot, fieldSlots name = some slot ∧
    fields.get slot.toNat = env.values name

section InSlots

variable {env : Assignment} {fieldSlots : String → Option UInt8} {fields : FieldValues}
  {op : Comparison} {left right inner : PredicateExpr}

theorem InSlots.mono (h : InSlots env fieldSlots fields left)
    (hsub : right.fieldNames ⊆ left.fieldNames) : InSlots env fieldSlots fields right :=
  fun name hname => h name (hsub hname)

theorem inSlots_compare (h : InSlots env fieldSlots fields (.compare op left right)) :
    InSlots env fieldSlots fields left ∧ InSlots env fieldSlots fields right :=
  ⟨h.mono (by simp), h.mono (by simp)⟩

theorem inSlots_and (h : InSlots env fieldSlots fields (.and left right)) :
    InSlots env fieldSlots fields left ∧ InSlots env fieldSlots fields right :=
  ⟨h.mono (by simp), h.mono (by simp)⟩

theorem inSlots_or (h : InSlots env fieldSlots fields (.or left right)) :
    InSlots env fieldSlots fields left ∧ InSlots env fieldSlots fields right :=
  ⟨h.mono (by simp), h.mono (by simp)⟩

theorem inSlots_not (h : InSlots env fieldSlots fields (.not inner)) :
    InSlots env fieldSlots fields inner :=
  h.mono (by simp)

end InSlots

/-- The context in which the interpreter runs for an assignment. -/
def Assignment.context (env : Assignment) (encoding : Bool) : PredicateContext :=
  ⟨env.length, env.hasTransactionId, encoding⟩

theorem mapM_append_ok {α β ε : Type} {f : α → Except ε β} {first second : List α} {out : List β}
    (h : (first ++ second).mapM f = .ok out) :
    ∃ a b, first.mapM f = .ok a ∧ second.mapM f = .ok b ∧ out = a ++ b := by
  rw [List.mapM_append] at h
  cases hfirst : first.mapM f with
  | error e => rw [hfirst] at h; cases h
  | ok a =>
    cases hsecond : second.mapM f with
    | error e => rw [hfirst, hsecond] at h; cases h
    | ok b =>
      rw [hfirst, hsecond] at h
      exact ⟨a, b, rfl, rfl, (Except.ok.inj h).symm⟩

theorem mapM_cons_ok {α β ε : Type} {f : α → Except ε β} {a : α} {rest : List α} {out : List β}
    (h : (a :: rest).mapM f = .ok out) :
    ∃ b bs, f a = .ok b ∧ rest.mapM f = .ok bs ∧ out = b :: bs := by
  rw [List.mapM_cons] at h
  cases ha : f a with
  | error e => rw [ha] at h; cases h
  | ok b =>
    cases hrest : rest.mapM f with
    | error e => rw [ha, hrest] at h; cases h
    | ok bs =>
      rw [ha, hrest] at h
      exact ⟨b, bs, rfl, rfl, (Except.ok.inj h).symm⟩

theorem mapM_singleton_ok {α β ε : Type} {f : α → Except ε β} {a : α} {out : List β}
    (h : [a].mapM f = .ok out) : ∃ b, f a = .ok b ∧ out = [b] := by
  obtain ⟨b, bs, hb, hbs, rfl⟩ := mapM_cons_ok h
  obtain rfl := Except.ok.inj hbs
  exact ⟨b, hb, rfl⟩

theorem mapM_ok_of_forall {α β ε : Type} {f : α → Except ε β} {list : List α}
    (h : ∀ a ∈ list, ∃ b, f a = .ok b) : ∃ out, list.mapM f = .ok out := by
  induction list with
  | nil => exact ⟨[], rfl⟩
  | cons a rest ih =>
    obtain ⟨b, hb⟩ := h a List.mem_cons_self
    obtain ⟨bs, hbs⟩ := ih fun a' ha' => h a' (List.mem_cons_of_mem a ha')
    rw [List.mapM_cons, hb, hbs]
    exact ⟨b :: bs, rfl⟩

/-- The range check reaches every literal. -/
theorem integer_le_of_mem {expr : PredicateExpr} {value : UInt64}
    (hrange : expr.validateFlatIntegerRange = true)
    (hmem : PrefixToken.integer value ∈ expr.visitPrefix) : value ≤ 255 := by
  induction expr with
  | field token => cases token <;> simp [PredicateExpr.visitPrefix] at hmem
  | integer literal =>
    simp only [PredicateExpr.visitPrefix, List.mem_singleton, PrefixToken.integer.injEq] at hmem
    simpa [PredicateExpr.validateFlatIntegerRange, hmem] using hrange
  | bool _ => simp [PredicateExpr.visitPrefix] at hmem
  | compare _ left right ihl ihr | and left right ihl ihr | or left right ihl ihr =>
    simp only [PredicateExpr.validateFlatIntegerRange, Bool.and_eq_true] at hrange
    simp only [PredicateExpr.visitPrefix, List.mem_cons, List.mem_append, reduceCtorEq,
      false_or] at hmem
    exact hmem.elim (ihl hrange.1) (ihr hrange.2)
  | not inner ih =>
    simp only [PredicateExpr.visitPrefix, List.mem_cons, reduceCtorEq, false_or] at hmem
    exact ih hrange hmem

section Nodes

attribute [local simp] PredicateProgram.evalNode

variable {fields : FieldValues} {ctx : PredicateContext} {depth : Nat}
  {tokens middle rest : List FlatPredicateToken} {left right : Option Int}

theorem evalNode_not (h : PredicateProgram.evalNode fields ctx depth tokens = (left, rest)) :
    PredicateProgram.evalNode fields ctx (depth + 1) (.not :: tokens) =
      (some (!isTrue left).toInt, rest) := by
  cases hleft : isTrue left <;>
    simp [PredicateProgram.evalNode, FlatPredicateToken.not, h, PredicateProgram.truthy,
      PredicateProgram.boolean, isTrue] at hleft ⊢ <;>
    simp [hleft]

theorem evalNode_and (hl : PredicateProgram.evalNode fields ctx depth tokens = (left, middle))
    (hr : PredicateProgram.evalNode fields ctx depth middle = (right, rest)) :
    PredicateProgram.evalNode fields ctx (depth + 1) (.and :: tokens) =
      (some (isTrue left && isTrue right).toInt, rest) := by
  simp only [PredicateProgram.evalNode, FlatPredicateToken.and, hl, hr]
  cases hleft : isTrue left <;> cases hright : isTrue right <;>
    simp_all [PredicateProgram.truthy, PredicateProgram.boolean, isTrue]

theorem evalNode_or (hl : PredicateProgram.evalNode fields ctx depth tokens = (left, middle))
    (hr : PredicateProgram.evalNode fields ctx depth middle = (right, rest)) :
    PredicateProgram.evalNode fields ctx (depth + 1) (.or :: tokens) =
      (some (isTrue left || isTrue right).toInt, rest) := by
  simp only [PredicateProgram.evalNode, FlatPredicateToken.or, hl, hr]
  cases hleft : isTrue left <;> cases hright : isTrue right <;>
    simp_all [PredicateProgram.truthy, PredicateProgram.boolean, isTrue]

theorem evalNode_compare (op : Comparison)
    (hl : PredicateProgram.evalNode fields ctx depth tokens = (left, middle))
    (hr : PredicateProgram.evalNode fields ctx depth middle = (right, rest)) :
    PredicateProgram.evalNode fields ctx (depth + 1) (op.instruction :: tokens) =
      (some (predicate_eval.compare op left right).toInt, rest) := by
  cases op <;>
    simp only [PredicateProgram.evalNode, Comparison.instruction, FlatPredicateToken.eq,
      FlatPredicateToken.ne, FlatPredicateToken.lt, FlatPredicateToken.le, FlatPredicateToken.gt,
      FlatPredicateToken.ge, hl, hr] <;>
    cases left <;> cases right <;>
    simp [predicate_eval.compare, PredicateProgram.compareTag, Comparison.holds]

end Nodes

/-- **The interpreter reads one operand and computes its meaning.** -/
theorem evalNode_program {env : Assignment} {encoding : Bool}
    {fieldSlots : String → Option UInt8} {fields : FieldValues} {expr : PredicateExpr}
    {tokens : List FlatPredicateToken} {depth : Nat} (rest : List FlatPredicateToken)
    (hslots : InSlots env fieldSlots fields expr)
    (hprogram : expr.visitPrefix.mapM (instruction fieldSlots) = .ok tokens)
    (hdepth : tokens.length ≤ depth) :
    PredicateProgram.evalNode fields (env.context encoding) depth (tokens ++ rest) =
      (meaning env expr, rest) := by
  induction expr generalizing tokens depth rest with
  | field token =>
    cases token with
    | field name =>
      obtain ⟨head, hhead, rfl⟩ := mapM_singleton_ok hprogram
      obtain ⟨depth, rfl⟩ := Nat.exists_eq_add_of_le' hdepth
      obtain ⟨slot, hslot, hvalue⟩ := hslots name (by simp [PredicateExpr.fieldNames,
        PredicateExpr.visitPrefix])
      simp only [instruction, hslot, Except.ok.injEq] at hhead
      subst hhead
      simp [PredicateProgram.evalNode, FlatPredicateToken.field, meaning, hvalue]
    | adjustedPayloadLength =>
      obtain ⟨head, hhead, rfl⟩ := mapM_singleton_ok hprogram
      obtain ⟨depth, rfl⟩ := Nat.exists_eq_add_of_le' hdepth
      obtain rfl := Except.ok.inj hhead
      simp [PredicateProgram.evalNode, FlatPredicateToken.adjustedPayloadLength, meaning,
        Assignment.context]
    | hasTransactionId =>
      obtain ⟨head, hhead, rfl⟩ := mapM_singleton_ok hprogram
      obtain ⟨depth, rfl⟩ := Nat.exists_eq_add_of_le' hdepth
      obtain rfl := Except.ok.inj hhead
      simp [PredicateProgram.evalNode, FlatPredicateToken.hasTransactionId, meaning,
        Assignment.context]
  | integer value =>
    obtain ⟨head, hhead, rfl⟩ := mapM_singleton_ok hprogram
    obtain ⟨depth, rfl⟩ := Nat.exists_eq_add_of_le' hdepth
    have hsmall : value ≤ 255 := by
      by_contra hlarge
      simp [instruction, hlarge] at hhead
    simp only [instruction, if_pos hsmall, Except.ok.injEq] at hhead
    subst hhead
    have hvalue : value.toNat % 256 = value.toNat := by
      have : value.toNat ≤ 255 := hsmall
      omega
    simp [PredicateProgram.evalNode, FlatPredicateToken.integer, meaning, hvalue]
  | bool value =>
    obtain ⟨head, hhead, rfl⟩ := mapM_singleton_ok hprogram
    obtain ⟨depth, rfl⟩ := Nat.exists_eq_add_of_le' hdepth
    obtain rfl := Except.ok.inj hhead
    cases value <;> rfl
  | compare op left right ihl ihr =>
    obtain ⟨head, tail, hhead, htail, rfl⟩ := mapM_cons_ok hprogram
    obtain ⟨a, b, ha, hb, rfl⟩ := mapM_append_ok htail
    obtain rfl := Except.ok.inj hhead
    obtain ⟨depth, rfl⟩ := Nat.exists_eq_add_of_le' (Nat.le_of_add_left_le hdepth)
    simp only [List.length_cons, List.length_append] at hdepth
    have ⟨hinLeft, hinRight⟩ := inSlots_compare hslots
    have hleft : PredicateProgram.evalNode fields (env.context encoding) depth (a ++ (b ++ rest))
      = (meaning env left, b ++ rest) := ihl (b ++ rest) hinLeft ha (by omega)
    have hright : PredicateProgram.evalNode fields (env.context encoding) depth (b ++ rest)
      = (meaning env right, rest) := ihr rest hinRight hb (by omega)
    rw [List.cons_append, List.append_assoc]
    exact evalNode_compare op hleft hright
  | and left right ihl ihr =>
    obtain ⟨head, tail, hhead, htail, rfl⟩ := mapM_cons_ok hprogram
    obtain ⟨a, b, ha, hb, rfl⟩ := mapM_append_ok htail
    obtain rfl := Except.ok.inj hhead
    obtain ⟨depth, rfl⟩ := Nat.exists_eq_add_of_le' (Nat.le_of_add_left_le hdepth)
    simp only [List.length_cons, List.length_append] at hdepth
    have ⟨hinLeft, hinRight⟩ := inSlots_and hslots
    have hleft : PredicateProgram.evalNode fields (env.context encoding) depth (a ++ (b ++ rest))
      = (meaning env left, b ++ rest) := ihl (b ++ rest) hinLeft ha (by omega)
    have hright : PredicateProgram.evalNode fields (env.context encoding) depth (b ++ rest)
      = (meaning env right, rest) := ihr rest hinRight hb (by omega)
    rw [List.cons_append, List.append_assoc]
    exact evalNode_and hleft hright
  | or left right ihl ihr =>
    obtain ⟨head, tail, hhead, htail, rfl⟩ := mapM_cons_ok hprogram
    obtain ⟨a, b, ha, hb, rfl⟩ := mapM_append_ok htail
    obtain rfl := Except.ok.inj hhead
    obtain ⟨depth, rfl⟩ := Nat.exists_eq_add_of_le' (Nat.le_of_add_left_le hdepth)
    simp only [List.length_cons, List.length_append] at hdepth
    have ⟨hinLeft, hinRight⟩ := inSlots_or hslots
    have hleft : PredicateProgram.evalNode fields (env.context encoding) depth (a ++ (b ++ rest))
      = (meaning env left, b ++ rest) := ihl (b ++ rest) hinLeft ha (by omega)
    have hright : PredicateProgram.evalNode fields (env.context encoding) depth (b ++ rest)
      = (meaning env right, rest) := ihr rest hinRight hb (by omega)
    rw [List.cons_append, List.append_assoc]
    exact evalNode_or hleft hright
  | not inner ih =>
    obtain ⟨head, tail, hhead, htail, rfl⟩ := mapM_cons_ok hprogram
    obtain rfl := Except.ok.inj hhead
    obtain ⟨depth, rfl⟩ := Nat.exists_eq_add_of_le' (Nat.le_of_add_left_le hdepth)
    simp only [List.length_cons] at hdepth
    exact evalNode_not (ih rest (inSlots_not hslots) htail (by omega))

/-! ## Whole programs -/

section Programs

variable {env : Assignment} {encoding : Bool} {fieldSlots : String → Option UInt8}
  {fields : FieldValues} {expr : PredicateExpr} {program : List FlatPredicateToken}

theorem predicateProgramRust_ok (h : predicateProgramRust expr fieldSlots = .ok program) :
    ∃ instructions, expr.visitPrefix.mapM (instruction fieldSlots) = .ok instructions ∧
      program = if expr.lengthOnly then .or :: .encoding :: instructions else instructions := by
  unfold predicateProgramRust at h
  cases hmap : expr.visitPrefix.mapM (instruction fieldSlots) with
  | error e => rw [hmap] at h; cases h
  | ok instructions =>
    rw [hmap] at h
    refine ⟨instructions, rfl, ?_⟩
    by_cases hlength : expr.lengthOnly = true
    · rw [if_pos hlength]
      simpa [hlength, bind, Except.bind, pure, Except.pure] using h.symm
    · rw [if_neg hlength]
      simpa [hlength, bind, Except.bind, pure, Except.pure] using h.symm

/-- What the program computes: encoding satisfies a predicate on the length alone. -/
def programMeaning (env : Assignment) (encoding : Bool) (expr : PredicateExpr) : Option Int :=
  if expr.lengthOnly then some (encoding || isTrue (meaning env expr)).toInt
  else meaning env expr

/-- **The interpreter consumes the whole program.** -/
theorem evalNode_compiled (hslots : InSlots env fieldSlots fields expr)
    (hprogram : predicateProgramRust expr fieldSlots = .ok program) :
    PredicateProgram.evalNode fields (env.context encoding) program.length program =
      (programMeaning env encoding expr, []) := by
  obtain ⟨instructions, hmap, rfl⟩ := predicateProgramRust_ok hprogram
  unfold programMeaning
  by_cases hlength : expr.lengthOnly = true
  · rw [if_pos hlength, if_pos hlength]
    have hleft : PredicateProgram.evalNode fields (env.context encoding)
        (instructions.length + 1) (.encoding :: instructions) =
          (some encoding.toInt, instructions) := by
      simp [PredicateProgram.evalNode, FlatPredicateToken.encoding, Assignment.context]
    have hright : PredicateProgram.evalNode fields (env.context encoding)
        (instructions.length + 1) (instructions ++ []) = (meaning env expr, []) :=
      evalNode_program [] hslots hmap (Nat.le_succ instructions.length)
    rw [List.append_nil] at hright
    have hor := evalNode_or hleft hright
    rwa [isTrue_toInt] at hor
  · rw [if_neg hlength, if_neg hlength]
    have hnode : PredicateProgram.evalNode fields (env.context encoding) instructions.length
        (instructions ++ []) = (meaning env expr, []) :=
      evalNode_program [] hslots hmap (Nat.le_refl _)
    rwa [List.append_nil] at hnode

theorem eval_compiled (hslots : InSlots env fieldSlots fields expr)
    (hprogram : predicateProgramRust expr fieldSlots = .ok program) :
    PredicateProgram.eval program fields (env.context encoding) =
      (expr.lengthOnly && encoding || isTrue (meaning env expr)) := by
  unfold PredicateProgram.eval
  rw [evalNode_compiled hslots hprogram]
  unfold programMeaning
  by_cases hlength : expr.lengthOnly = true
  · cases encoding <;> cases isTrue (meaning env expr) <;> simp [hlength]
  · rw [if_neg hlength]
    cases hmeaning : meaning env expr <;> simp [hlength, isTrue]

/-- **For decoding the program is true where the predicate holds.** -/
theorem eval_decode_iff (hslots : InSlots env fieldSlots fields expr)
    (hprogram : predicateProgramRust expr fieldSlots = .ok program) :
    PredicateProgram.eval program fields (env.context false) = true ↔ Holds env expr := by
  rw [eval_compiled hslots hprogram]
  simp [Holds]

/-- A predicate with small literals whose fields have slots is compiled. -/
theorem exists_program (hrange : expr.validateFlatIntegerRange = true)
    (hslots : InSlots env fieldSlots fields expr) :
    ∃ program, predicateProgramRust expr fieldSlots = .ok program := by
  have htokens : ∀ token ∈ expr.visitPrefix, ∃ head, instruction fieldSlots token = .ok head := by
    intro token htoken
    cases token with
    | field name =>
      have hname : name ∈ expr.fieldNames :=
        List.mem_filterMap.mpr ⟨.field name, htoken, rfl⟩
      obtain ⟨slot, hslot, -⟩ := hslots name hname
      exact ⟨.field slot, by simp [instruction, hslot]⟩
    | integer value =>
      exact ⟨.integer value.toUInt8, by simp [instruction, integer_le_of_mem hrange htoken]⟩
    | _ => exact ⟨_, rfl⟩
  obtain ⟨instructions, hmap⟩ := mapM_ok_of_forall htokens
  unfold predicateProgramRust
  rw [hmap]
  by_cases hlength : expr.lengthOnly = true
  · exact ⟨.or :: .encoding :: instructions, by simp [hlength, bind, Except.bind, pure, Except.pure]⟩
  · exact ⟨instructions, by simp [hlength, bind, Except.bind, pure, Except.pure]⟩

end Programs

end Catplay.Analysis.Lingo
