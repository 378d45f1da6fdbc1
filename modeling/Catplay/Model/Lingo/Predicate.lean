import Mathlib.Data.List.Basic

/-!
# Predicates

The predicates of the schema, the programs that are interpreted, and the two compilations.
-/

set_option autoImplicit false

/-!
## Predicates of the schema

`core/catplay_lingo/src/codegen/ir/predicate.rs`: the syntax tree of a predicate and its prefix
stream. The six comparisons of the source are one constructor with the comparison as argument.
-/

namespace Catplay.Model.Lingo

inductive PredicateToken
  | adjustedPayloadLength
  | hasTransactionId
  | field (name : String)
  deriving DecidableEq, Repr

inductive Comparison
  | eq | ne | lt | le | gt | ge
  deriving DecidableEq, Repr

/-- The comparison of two integers. -/
def Comparison.holds : Comparison → Int → Int → Bool
  | .eq, left, right => left = right
  | .ne, left, right => left ≠ right
  | .lt, left, right => left < right
  | .le, left, right => left ≤ right
  | .gt, left, right => left > right
  | .ge, left, right => left ≥ right

inductive PredicateExpr
  | field (token : PredicateToken)
  | integer (value : UInt64)
  | bool (value : Bool)
  | compare (op : Comparison) (left right : PredicateExpr)
  | and (left right : PredicateExpr)
  | or (left right : PredicateExpr)
  | not (inner : PredicateExpr)
  deriving DecidableEq, Repr

/-- The prefix atoms, `FlatPredicateToken` of the generator. -/
inductive PrefixToken
  | field (name : String)
  | adjustedPayloadLength
  | hasTransactionId
  | integer (value : UInt64)
  | bool (value : Bool)
  | compare (op : Comparison)
  | and
  | or
  | not
  deriving DecidableEq, Repr

namespace PredicateExpr

/-- The tokens in the order in which `visit_prefix` emits them. -/
def visitPrefix : PredicateExpr → List PrefixToken
  | .field (.field name) => [.field name]
  | .field .adjustedPayloadLength => [.adjustedPayloadLength]
  | .field .hasTransactionId => [.hasTransactionId]
  | .integer value => [.integer value]
  | .bool value => [.bool value]
  | .not inner => .not :: inner.visitPrefix
  | .compare op left right => .compare op :: (left.visitPrefix ++ right.visitPrefix)
  | .and left right => .and :: (left.visitPrefix ++ right.visitPrefix)
  | .or left right => .or :: (left.visitPrefix ++ right.visitPrefix)

/-- `validate_flat_integer_range` accepts the expression. -/
def validateFlatIntegerRange : PredicateExpr → Bool
  | .integer value => value ≤ 255
  | .compare _ left right | .and left right | .or left right =>
    left.validateFlatIntegerRange && right.validateFlatIntegerRange
  | .not inner => inner.validateFlatIntegerRange
  | .field _ | .bool _ => true

/-- The names of the schema fields the expression reads. -/
def fieldNames (expr : PredicateExpr) : List String :=
  expr.visitPrefix.filterMap fun
    | .field name => some name
    | _ => none

/-- Both compilers look for `has_length && !has_other_field`. -/
def lengthOnly (expr : PredicateExpr) : Bool :=
  let hasLength := expr.visitPrefix.any (· = .adjustedPayloadLength)
  let hasOtherField := expr.visitPrefix.any fun
    | .field _ | .hasTransactionId => true
    | _ => false
  hasLength && !hasOtherField

end PredicateExpr

end Catplay.Model.Lingo

/-!
## Predicate programs

`core/catplay_lingo/src/wire/predicate.rs`: the interpreter of the flat prefix programs that the
generated schemas hold. The tokens are the source's two bytes; a slice with a cursor is the list
of the tokens from the cursor on.
-/

namespace Catplay.Model.Lingo

/-- One tag byte and its payload. -/
structure FlatPredicateToken where
  tag : UInt8
  payload : UInt8
  deriving DecidableEq, Repr

namespace FlatPredicateToken

def field (value : UInt8) : FlatPredicateToken := ⟨0, value⟩
def integer (value : UInt8) : FlatPredicateToken := ⟨4, value⟩
def bool (value : Bool) : FlatPredicateToken := ⟨5, value.toUInt8⟩

def adjustedPayloadLength : FlatPredicateToken := ⟨1, 0⟩
def hasTransactionId : FlatPredicateToken := ⟨2, 0⟩
def encoding : FlatPredicateToken := ⟨3, 0⟩
def eq : FlatPredicateToken := ⟨6, 0⟩
def ne : FlatPredicateToken := ⟨7, 0⟩
def lt : FlatPredicateToken := ⟨8, 0⟩
def le : FlatPredicateToken := ⟨9, 0⟩
def gt : FlatPredicateToken := ⟨10, 0⟩
def ge : FlatPredicateToken := ⟨11, 0⟩
def and : FlatPredicateToken := ⟨12, 0⟩
def or : FlatPredicateToken := ⟨13, 0⟩
def not : FlatPredicateToken := ⟨14, 0⟩

end FlatPredicateToken

/-- The integers of the fields read so far, `[Option<i128>; 128]`. -/
abbrev FieldValues := Fin 128 → Option Int

/-- `fields.get(slot).copied().flatten()`. -/
def FieldValues.get (fields : FieldValues) (slot : Nat) : Option Int :=
  if h : slot < 128 then fields ⟨slot, h⟩ else none

/-- `DecodeContext` and `EncodeContext`, told apart by the constant their `encoding` returns. -/
structure PredicateContext where
  adjustedPayloadLength : Nat
  hasTransactionId : Bool
  encoding : Bool
  deriving DecidableEq, Repr

namespace PredicateProgram

/-- `i128::from` of a boolean. -/
def boolean (value : Bool) : Int := if value then 1 else 0

/-- `is_some_and(|v| v != 0)`. -/
def truthy (value : Option Int) : Bool := value.any (· ≠ 0)

/-- The comparison of a tag from 6 to 11. -/
def compareTag (tag : UInt8) (left right : Int) : Bool :=
  match tag with
  | 6 => left = right
  | 7 => left ≠ right
  | 8 => left < right
  | 9 => left ≤ right
  | 10 => left > right
  | _ => left ≥ right

/-- `eval_node`: the value of the operand at the cursor and the tokens behind it. Each call reads
a token, so a `depth` of the number of tokens is never used up. -/
def evalNode (fields : FieldValues) (ctx : PredicateContext) :
    Nat → List FlatPredicateToken → Option Int × List FlatPredicateToken
  | 0, tokens => (none, tokens)
  | _ + 1, [] => (none, [])
  | depth + 1, token :: tokens =>
    match token.tag with
    | 0 => (fields.get token.payload.toNat, tokens)
    | 1 => (some ctx.adjustedPayloadLength, tokens)
    | 2 => (some (boolean ctx.hasTransactionId), tokens)
    | 3 => (some (boolean ctx.encoding), tokens)
    | 4 => (some token.payload.toNat, tokens)
    | 5 => (some (boolean (token.payload ≠ 0)), tokens)
    | 14 =>
      let (inner, tokens) := evalNode fields ctx depth tokens
      (some (boolean (!truthy inner)), tokens)
    | 12 | 13 =>
      let (left, tokens) := evalNode fields ctx depth tokens
      let (right, tokens) := evalNode fields ctx depth tokens
      let value := if token.tag = 12 then truthy left && truthy right else truthy left || truthy right
      (some (boolean value), tokens)
    | 6 | 7 | 8 | 9 | 10 | 11 =>
      let (left, tokens) := evalNode fields ctx depth tokens
      let (right, tokens) := evalNode fields ctx depth tokens
      match left, right with
      | some left, some right => (some (boolean (compareTag token.tag left right)), tokens)
      | _, _ => (some 0, tokens)
    | _ => (none, tokens)

/-- `PredicateProgram::eval`. -/
def eval (tokens : List FlatPredicateToken) (fields : FieldValues) (ctx : PredicateContext) :
    Bool :=
  match evalNode fields ctx tokens.length tokens with
  | (some value, rest) => rest.isEmpty && value ≠ 0
  | (none, _) => false

end PredicateProgram

end Catplay.Model.Lingo

/-!
## The two compilations of a predicate

`predicate_expr_rust` and `predicate_program_rust` of `core/catplay_lingo/src/codegen/mod.rs`, and
the functions of `prim/predicate.rs` that the emitted expressions call. Emitted Rust is its
syntax tree; a local variable of the emitted code is the integer its value counts as, if any.
-/

namespace Catplay.Model.Lingo

/-! ### The emitted Rust expressions -/

mutual

/-- A reference that is passed to a comparison or to `truthy`. -/
inductive RustOperand
  | local (name : String)
  | adjustedPayloadLength
  | hasTransactionId
  | integer (value : UInt64)
  | bool (value : Bool)
  | parenthesised (expr : RustExpr)

inductive RustExpr
  | compare (op : Comparison) (left right : RustOperand)
  | truthy (operand : RustOperand)
  | and (left right : RustExpr)
  | or (left right : RustExpr)
  | not (inner : RustExpr)
  | encoding

end

namespace predicate_eval

/-- `compare` with the operator of the six functions `eq`, `ne`, `lt`, `le`, `gt` and `ge`. -/
def compare (op : Comparison) (left right : Option Int) : Bool :=
  match left, right with
  | some a, some b => op.holds a b
  | _, _ => false

def truthy (value : Option Int) : Bool := value.any (· ≠ 0)

end predicate_eval

mutual

/-- The operand's `predicate_integer`. -/
def RustOperand.predicateInteger (locals : String → Option Int) (ctx : PredicateContext) :
    RustOperand → Option Int
  | .local name => locals name
  | .adjustedPayloadLength => some ctx.adjustedPayloadLength
  | .hasTransactionId => some ctx.hasTransactionId.toInt
  | .integer value => some value.toNat
  | .bool value => some value.toInt
  | .parenthesised expr => some (expr.eval locals ctx).toInt

/-- What the emitted expression evaluates to. -/
def RustExpr.eval (locals : String → Option Int) (ctx : PredicateContext) : RustExpr → Bool
  | .compare op left right =>
    predicate_eval.compare op (left.predicateInteger locals ctx) (right.predicateInteger locals ctx)
  | .truthy operand => predicate_eval.truthy (operand.predicateInteger locals ctx)
  | .and left right => left.eval locals ctx && right.eval locals ctx
  | .or left right => left.eval locals ctx || right.eval locals ctx
  | .not inner => !inner.eval locals ctx
  | .encoding => ctx.encoding

end

/-! ### The two compilers -/

/-- The closure `operand`. `reference` is the Rust name of a schema key, and `compiled` is what
`predicate_expr_rust` makes of an operand that is no leaf. -/
def predicateOperand (reference : String → String) (expr : PredicateExpr) (compiled : RustExpr) :
    RustOperand :=
  match expr with
  | .field (.field name) => .local (reference name)
  | .field .adjustedPayloadLength => .adjustedPayloadLength
  | .field .hasTransactionId => .hasTransactionId
  | .integer value => .integer value
  | .bool value => .bool value
  | _ => .parenthesised compiled

/-- `ctx.encoding() || (expression)` around a predicate that reads the length and nothing else. -/
def encodeBypass (expr : PredicateExpr) (expression : RustExpr) : RustExpr :=
  if expr.lengthOnly then .or .encoding expression else expression

def predicateExprRust (reference : String → String) : PredicateExpr → RustExpr
  | .compare op left right =>
    encodeBypass (.compare op left right)
      (.compare op (predicateOperand reference left (predicateExprRust reference left))
        (predicateOperand reference right (predicateExprRust reference right)))
  | .and left right =>
    encodeBypass (.and left right)
      (.and (predicateExprRust reference left) (predicateExprRust reference right))
  | .or left right =>
    encodeBypass (.or left right)
      (.or (predicateExprRust reference left) (predicateExprRust reference right))
  | .not inner => encodeBypass (.not inner) (.not (predicateExprRust reference inner))
  | .field token =>
    encodeBypass (.field token) (.truthy (predicateOperand reference (.field token) .encoding))
  | .integer value =>
    encodeBypass (.integer value) (.truthy (predicateOperand reference (.integer value) .encoding))
  | .bool value =>
    encodeBypass (.bool value) (.truthy (predicateOperand reference (.bool value) .encoding))

inductive CodegenError
  | noFieldSlot (name : String)
  | integerExceedsU8
  deriving DecidableEq, Repr

/-- The instruction of a comparison. -/
def Comparison.instruction : Comparison → FlatPredicateToken
  | .eq => .eq
  | .ne => .ne
  | .lt => .lt
  | .le => .le
  | .gt => .gt
  | .ge => .ge

/-- The instruction that a prefix token becomes. -/
def instruction (fieldSlots : String → Option UInt8) :
    PrefixToken → Except CodegenError FlatPredicateToken
  | .field name =>
    match fieldSlots name with
    | some slot => .ok (.field slot)
    | none => .error (.noFieldSlot name)
  | .adjustedPayloadLength => .ok .adjustedPayloadLength
  | .hasTransactionId => .ok .hasTransactionId
  | .integer value =>
    if value ≤ 255 then .ok (.integer value.toUInt8) else .error .integerExceedsU8
  | .bool value => .ok (.bool value)
  | .compare op => .ok op.instruction
  | .and => .ok .and
  | .or => .ok .or
  | .not => .ok .not

def predicateProgramRust (expr : PredicateExpr) (fieldSlots : String → Option UInt8) :
    Except CodegenError (List FlatPredicateToken) := do
  let instructions ← expr.visitPrefix.mapM (instruction fieldSlots)
  if expr.lengthOnly then return .or :: .encoding :: instructions else return instructions

end Catplay.Model.Lingo
