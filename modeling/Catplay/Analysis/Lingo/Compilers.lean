import Catplay.Analysis.Lingo.Meaning

/-!
# The two compilations of a predicate against each other

While a message is encoded, its length is not known yet, and both compilers make a predicate that
reads nothing but the length true. The flat program does so for the whole predicate only; the Rust
expression does so for every part of it. Both results are computed here in terms of the meaning of
the predicate, which shows where they differ.
-/

set_option autoImplicit false

namespace Catplay.Analysis.Lingo

open Catplay.Model.Lingo

/-- A comparison refers to a leaf directly, not through an expression of its own. -/
def isLeaf : PredicateExpr → Bool
  | .field _ | .integer _ | .bool _ => true
  | _ => false

/-- The predicate with every part that reads nothing but the length set to true. -/
def relaxed : PredicateExpr → PredicateExpr
  | .compare op left right =>
    if (PredicateExpr.compare op left right).lengthOnly then .bool true
    else .compare op (if isLeaf left then left else relaxed left)
      (if isLeaf right then right else relaxed right)
  | .and left right =>
    if (PredicateExpr.and left right).lengthOnly then .bool true
    else .and (relaxed left) (relaxed right)
  | .or left right =>
    if (PredicateExpr.or left right).lengthOnly then .bool true
    else .or (relaxed left) (relaxed right)
  | .not inner =>
    if (PredicateExpr.not inner).lengthOnly then .bool true else .not (relaxed inner)
  | .field token => if (PredicateExpr.field token).lengthOnly then .bool true else .field token
  | .integer value => .integer value
  | .bool value => .bool value

theorem relaxed_of_lengthOnly {expr : PredicateExpr} (h : expr.lengthOnly = true) :
    relaxed expr = .bool true := by
  cases expr with
  | integer value => simp [PredicateExpr.lengthOnly, PredicateExpr.visitPrefix] at h
  | bool value => simp [PredicateExpr.lengthOnly, PredicateExpr.visitPrefix] at h
  | _ => simp only [relaxed, h, if_true]

section Rust

variable {env : Assignment} {encoding : Bool} {reference : String → String}
  {locals : String → Option Int}

/-- The emitted code's variables hold what the assignment gives the fields. -/
def InLocals (env : Assignment) (reference : String → String) (locals : String → Option Int)
    (expr : PredicateExpr) : Prop :=
  ∀ name ∈ expr.fieldNames, locals (reference name) = env.values name

theorem InLocals.mono {left right : PredicateExpr} (h : InLocals env reference locals left)
    (hsub : right.fieldNames ⊆ left.fieldNames) : InLocals env reference locals right :=
  fun name hname => h name (hsub hname)

/-- What a part of the predicate counts as while encoding, and otherwise. -/
def encodeMeaning (env : Assignment) (encoding : Bool) (expr : PredicateExpr) : Option Int :=
  meaning env (if encoding then relaxed expr else expr)

theorem eval_encodeBypass (expr : PredicateExpr) (expression : RustExpr) :
    (encodeBypass expr expression).eval locals (env.context encoding) =
      (expr.lengthOnly && encoding || expression.eval locals (env.context encoding)) := by
  unfold encodeBypass
  by_cases h : expr.lengthOnly = true
  · simp [h, RustExpr.eval, Assignment.context]
  · simp [h]

theorem isTrue_eq_truthy (value : Option Int) : predicate_eval.truthy value = isTrue value := rfl

/-- A leaf's reference holds the leaf's meaning. -/
theorem predicateInteger_leaf {expr : PredicateExpr} {compiled : RustExpr}
    (hleaf : isLeaf expr = true) (hlocals : InLocals env reference locals expr) :
    (predicateOperand reference expr compiled).predicateInteger locals (env.context encoding) =
      meaning env expr := by
  cases expr with
  | field token =>
    cases token with
    | field name =>
      simpa [predicateOperand, RustOperand.predicateInteger, meaning] using
        hlocals name (by simp [PredicateExpr.fieldNames, PredicateExpr.visitPrefix])
    | _ => simp [predicateOperand, RustOperand.predicateInteger, meaning, Assignment.context]
  | integer value => simp [predicateOperand, RustOperand.predicateInteger, meaning]
  | bool value => simp [predicateOperand, RustOperand.predicateInteger, meaning]
  | _ => simp [isLeaf] at hleaf

/-- An operand that is no leaf has a truth value for its integer. -/
theorem predicateInteger_node {expr : PredicateExpr} {compiled : RustExpr}
    (hnode : isLeaf expr = false) :
    (predicateOperand reference expr compiled).predicateInteger locals (env.context encoding) =
      some (compiled.eval locals (env.context encoding)).toInt := by
  cases expr with
  | field _ | integer _ | bool _ => simp [isLeaf] at hnode
  | _ => simp [predicateOperand, RustOperand.predicateInteger]

/-- The meaning of an expression that is no leaf is a truth value. -/
theorem meaning_node {expr : PredicateExpr} (hnode : isLeaf expr = false) :
    meaning env expr = some (isTrue (meaning env expr)).toInt := by
  cases expr with
  | field _ | integer _ | bool _ => simp [isLeaf] at hnode
  | _ => simp [meaning]

theorem isLeaf_relaxed {expr : PredicateExpr} (hnode : isLeaf expr = false) :
    meaning env (relaxed expr) = some (isTrue (meaning env (relaxed expr))).toInt := by
  by_cases h : expr.lengthOnly = true
  · rw [relaxed_of_lengthOnly h]
    rfl
  · cases expr with
    | field _ | integer _ | bool _ => simp [isLeaf] at hnode
    | _ => simp [relaxed, h, meaning]

/-- The part that bypasses the predicate, apart from the part behind it. -/
theorem eval_bypassed {expr : PredicateExpr} {expression : RustExpr}
    (hbehind : (expr.lengthOnly && encoding) = false →
      expression.eval locals (env.context encoding) = isTrue (encodeMeaning env encoding expr)) :
    (encodeBypass expr expression).eval locals (env.context encoding) =
      isTrue (encodeMeaning env encoding expr) := by
  rw [eval_encodeBypass]
  cases hbypass : expr.lengthOnly && encoding with
  | false => simpa using hbehind hbypass
  | true =>
    obtain ⟨hlength, rfl⟩ := Bool.and_eq_true_iff.mp hbypass
    simp only [Bool.true_or, encodeMeaning, if_true, relaxed_of_lengthOnly hlength]
    rfl

/-- What is passed to a comparison for an operand. -/
theorem predicateInteger_operand {expr : PredicateExpr}
    (hlocals : InLocals env reference locals expr)
    (heval : (predicateExprRust reference expr).eval locals (env.context encoding) =
      isTrue (encodeMeaning env encoding expr)) :
    (predicateOperand reference expr (predicateExprRust reference expr)).predicateInteger locals
        (env.context encoding) =
      if isLeaf expr then meaning env expr else encodeMeaning env encoding expr := by
  cases hleaf : isLeaf expr with
  | true => rw [predicateInteger_leaf hleaf hlocals, if_pos rfl]
  | false =>
    rw [predicateInteger_node hleaf, heval, if_neg Bool.false_ne_true]
    cases encoding with
    | false => exact (meaning_node hleaf).symm
    | true => exact (isLeaf_relaxed hleaf).symm

/-- **The emitted expression computes the relaxed predicate while encoding**, and the predicate
itself otherwise. -/
theorem eval_predicateExprRust {expr : PredicateExpr}
    (hlocals : InLocals env reference locals expr) :
    (predicateExprRust reference expr).eval locals (env.context encoding) =
      isTrue (encodeMeaning env encoding expr) := by
  induction expr with
  | field token =>
    refine eval_bypassed fun hbypass => ?_
    simp only [RustExpr.eval, predicateInteger_leaf rfl hlocals, isTrue_eq_truthy, encodeMeaning]
    cases encoding <;> simp_all [relaxed]
  | integer value =>
    refine eval_bypassed fun _ => ?_
    simp only [RustExpr.eval, predicateInteger_leaf rfl hlocals, isTrue_eq_truthy, encodeMeaning]
    cases encoding <;> rfl
  | bool value =>
    refine eval_bypassed fun _ => ?_
    simp only [RustExpr.eval, predicateInteger_leaf rfl hlocals, isTrue_eq_truthy, encodeMeaning]
    cases encoding <;> rfl
  | compare op left right ihl ihr =>
    have hleft := predicateInteger_operand (hlocals.mono (by simp))
      (ihl (hlocals.mono (by simp)))
    have hright := predicateInteger_operand (hlocals.mono (by simp))
      (ihr (hlocals.mono (by simp)))
    refine eval_bypassed fun hbypass => ?_
    simp only [RustExpr.eval, hleft, hright]
    cases encoding with
    | false => simp [encodeMeaning, meaning]
    | true =>
      simp only [Bool.and_true] at hbypass
      simp only [encodeMeaning, if_true, relaxed, hbypass, Bool.false_eq_true, if_false, meaning,
        isTrue_toInt]
      cases isLeaf left <;> cases isLeaf right <;> rfl
  | and left right ihl ihr =>
    have hleft := ihl (hlocals.mono (by simp))
    have hright := ihr (hlocals.mono (by simp))
    refine eval_bypassed fun hbypass => ?_
    simp only [RustExpr.eval, hleft, hright]
    cases encoding <;> simp_all [encodeMeaning, relaxed, meaning]
  | or left right ihl ihr =>
    have hleft := ihl (hlocals.mono (by simp))
    have hright := ihr (hlocals.mono (by simp))
    refine eval_bypassed fun hbypass => ?_
    simp only [RustExpr.eval, hleft, hright]
    cases encoding <;> simp_all [encodeMeaning, relaxed, meaning]
  | not inner ih =>
    have hinner := ih (hlocals.mono (by simp))
    refine eval_bypassed fun hbypass => ?_
    simp only [RustExpr.eval, hinner]
    cases encoding <;> simp_all [encodeMeaning, relaxed, meaning]

end Rust

/-! ## Where the two agree -/

/-- **The two compilations agree exactly where the bypass of a part does not show**: for decoding,
for a predicate that reads nothing but the length, and where setting those of its parts that read
nothing but the length to true does not change its truth value. -/
theorem compilations_agree {env : Assignment} {encoding : Bool} {reference : String → String}
    {locals : String → Option Int} {fieldSlots : String → Option UInt8} {fields : FieldValues}
    {expr : PredicateExpr} (hrange : expr.validateFlatIntegerRange = true)
    (hslots : InSlots env fieldSlots fields expr) (hlocals : InLocals env reference locals expr) :
    ∃ program, predicateProgramRust expr fieldSlots = .ok program ∧
      (((PredicateProgram.evalNode fields (env.context encoding) program.length program).2 = [] ∧
          PredicateProgram.eval program fields (env.context encoding) =
            (predicateExprRust reference expr).eval locals (env.context encoding)) ↔
        (encoding = true →
          expr.lengthOnly = true ∨ (Holds env (relaxed expr) ↔ Holds env expr))) := by
  obtain ⟨program, hprogram⟩ := exists_program hrange hslots
  refine ⟨program, hprogram, ?_⟩
  rw [evalNode_compiled hslots hprogram, eval_compiled hslots hprogram,
    eval_predicateExprRust hlocals]
  unfold encodeMeaning Holds
  cases encoding with
  | false => simp
  | true =>
    cases hlength : expr.lengthOnly with
    | true => simp [relaxed_of_lengthOnly hlength, meaning, isTrue]
    | false =>
      cases hplain : isTrue (meaning env expr) <;>
        cases hrelaxed : isTrue (meaning env (relaxed expr)) <;> simp [hrelaxed]

/-- A field that is read together with a bound on the length. -/
def boundedLength : PredicateExpr :=
  .and (.compare .gt (.field .adjustedPayloadLength) (.integer 5))
    (.compare .eq (.field (.field "value")) (.integer 1))

/-- Every field has the slot 0 and the value 1, and no length is known yet. -/
def encodedOne : Assignment := ⟨fun _ => some 1, 0, false⟩

theorem compilations_agree_boundedLength :
    ∃ program, predicateProgramRust boundedLength (fun _ => some 0) = .ok program ∧
      (((PredicateProgram.evalNode (fun _ => some 1) (encodedOne.context false) program.length
            program).2 = [] ∧
          PredicateProgram.eval program (fun _ => some 1) (encodedOne.context false) =
            (predicateExprRust id boundedLength).eval (fun _ => some 1)
              (encodedOne.context false)) ↔
        (false = true → boundedLength.lengthOnly = true ∨
          (Holds encodedOne (relaxed boundedLength) ↔ Holds encodedOne boundedLength))) :=
  compilations_agree (by decide) (fun _ _ => ⟨0, rfl, rfl⟩) (fun _ _ => rfl)

/-- While encoding, the program takes the unknown length for 0 where the expression bypasses the
bound. -/
theorem compilations_differ :
    ∃ program, predicateProgramRust boundedLength (fun _ => some 0) = .ok program ∧
      PredicateProgram.eval program (fun _ => some 1) (encodedOne.context true) = false ∧
      (predicateExprRust id boundedLength).eval (fun _ => some 1) (encodedOne.context true) =
        true :=
  ⟨_, rfl, by decide, by decide⟩

end Catplay.Analysis.Lingo
