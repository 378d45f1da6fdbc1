import Catplay.Library.Odometer
import Catplay.Model.Lingo.Predicate

/-!
# The generator's predicate analysis

`core/catplay_lingo/src/codegen/ir/predicate_analysis.rs`. A `BTreeMap` is the list of its
entries in the order of the keys, a `BTreeSet` the ordered list of its elements. `none` stands for
the panics: `unreachable!()` and an index out of range.
-/

set_option autoImplicit false

namespace Catplay.Model.Lingo

open Catplay.Library

inductive Value
  | integer (value : UInt64)
  | bool (value : Bool)
  deriving DecidableEq, Repr

inductive Overlap
  | disjoint
  | overlapping (witness : List (String × Value))
  | unknown (reason : String)
  deriving DecidableEq, Repr

/-- `Overlap::can_share_storage`. -/
def Overlap.canShareStorage : Overlap → Bool
  | .disjoint => true
  | _ => false

inductive Coverage
  | exhaustive
  | gap (witness : List (String × Value))
  | unknown (reason : String)
  deriving DecidableEq, Repr

inductive Kind
  | integer
  | bool
  deriving DecidableEq, Repr

namespace PredicateAnalysis

/-- Namespace prevents synthetic tokens aliasing ordinary field names. -/
def key : PredicateToken → String
  | .field name => "field:" ++ name
  | .adjustedPayloadLength => "synthetic:adjustedPayloadLength"
  | .hasTransactionId => "synthetic:hasTransactionID"

/-- `BTreeSet::insert`. -/
def insertConstant (value : UInt64) (constants : List UInt64) : List UInt64 :=
  if value ∈ constants then constants else constants.orderedInsert (· ≤ ·) value

/-- What `inspect` collects: the kind of each field and the integer literals. -/
structure Inspection where
  fields : List (String × Kind)
  constants : List UInt64
  deriving DecidableEq, Repr

def fieldKind (token : PredicateToken) (kind : Kind) (fields : List (String × Kind)) :
    Except String (List (String × Kind)) :=
  if (token = .adjustedPayloadLength ∧ kind ≠ .integer) ∨
      (token = .hasTransactionId ∧ kind ≠ .bool) then
    .error "incorrect synthetic field type"
  else
    match fields.lookup (key token) with
    | some old =>
      if old ≠ kind then .error "field used as both integer and boolean" else .ok fields
    | none => .ok (fields.orderedInsert (fun a b => a.1 ≤ b.1) (key token, kind))

def literal : PredicateExpr → Option Value
  | .integer value => some (.integer value)
  | .bool value => some (.bool value)
  | _ => none

/-- A field compared with a literal, on either side. -/
def fieldLiteral (left right : PredicateExpr) : Option (PredicateToken × Value) :=
  match left, right with
  | .field token, other | other, .field token => (literal other).map (token, ·)
  | _, _ => none

def sameKind : Value → Value → Bool
  | .integer _, .integer _ | .bool _, .bool _ => true
  | _, _ => false

def Comparison.isEquality : Comparison → Bool
  | .eq | .ne => true
  | _ => false

def inspectComparison (op : Comparison) (left right : PredicateExpr) (found : Inspection) :
    Except String Inspection :=
  match fieldLiteral left right with
  | some (token, .integer value) => do
    let fields ← fieldKind token .integer found.fields
    return ⟨fields, insertConstant value found.constants⟩
  | some (token, .bool _) =>
    if Comparison.isEquality op then do
      let fields ← fieldKind token .bool found.fields
      return ⟨fields, found.constants⟩
    else .error "boolean ordering unsupported"
  | none =>
    match literal left, literal right with
    | some left, some right =>
      if !sameKind left right || !Comparison.isEquality op && sameKind left (.bool false) then
        .error "invalid literal comparison"
      else .ok found
    | _, _ =>
      .error "analysis supports comparisons of a field with a literal, or two literals"

def inspect : PredicateExpr → Inspection → Except String Inspection
  | .bool _, found => .ok found
  | .field token, found => do
    let fields ← fieldKind token .bool found.fields
    return ⟨fields, found.constants⟩
  | .not inner, found => inspect inner found
  | .and left right, found | .or left right, found => do
    let found ← inspect left found
    inspect right found
  | .compare op left right, found => inspectComparison op left right found
  | .integer _, _ => .error "integer used as a predicate"

/-! ## Evaluation under a full assignment -/

/-- The boolean inside, `unreachable!()` otherwise. -/
def asBool : Value → Option Bool
  | .bool value => some value
  | .integer _ => none

def compareValues (op : Comparison) (left right : Value) : Option Bool :=
  match op with
  | .eq => some (left = right)
  | .ne => some (left ≠ right)
  | op =>
    match left, right with
    | .integer a, .integer b => some (op.holds a.toNat b.toNat)
    | _, _ => none

def value (env : List (String × Value)) : PredicateExpr → Option Value
  | .integer n => some (.integer n)
  | .bool b => some (.bool b)
  | .field token => env.lookup (key token)
  | .not inner => do
    let inner ← value env inner >>= asBool
    return .bool !inner
  | .and left right => do
    let left ← value env left >>= asBool
    let both ← if left then value env right >>= asBool else some false
    return .bool both
  | .or left right => do
    let left ← value env left >>= asBool
    let either ← if left then some true else value env right >>= asBool
    return .bool either
  | .compare op left right => do
    let left ← value env left
    let right ← value env right
    let result ← compareValues op left right
    return .bool result

def truth (expr : PredicateExpr) (env : List (String × Value)) : Option Bool :=
  value env expr >>= asBool

/-! ## The search -/

/-- Boundary values and adjacent values represent every interval between constants. -/
def integers (constants : List UInt64) : List UInt64 :=
  constants.foldl
    (fun integers n =>
      let integers := insertConstant n integers
      let integers := if 0 < n then insertConstant (n - 1) integers else integers
      if n < 18446744073709551615 then insertConstant (n + 1) integers else integers)
    [0, 18446744073709551615]

def domain (constants : List UInt64) : Kind → List Value
  | .bool => [.bool false, .bool true]
  | .integer => (integers constants).map .integer

/-- The assignment of an index vector. -/
def assignment (domains : List (String × List Value)) (indices : List Nat) :
    Option (List (String × Value)) :=
  (domains.zip indices).mapM fun ((name, values), index) => do
    let value ← values[index]?
    return (name, value)

/-- The loop of `check_overlap`, with `budget` assignments left. -/
def search (left right : PredicateExpr) (maxAssignments : Nat)
    (domains : List (String × List Value)) : Nat → List Nat → Option Overlap
  | 0, _ => some (.unknown s!"assignment limit reached ({maxAssignments})")
  | budget + 1, indices =>
    match assignment domains indices with
    | none => none
    | some env =>
      match (do if ← truth left env then truth right env else return false) with
      | none => none
      | some true => some (.overlapping env)
      | some false =>
        match Odometer.advance (domains.map (·.2.length)) indices with
        | some indices => search left right maxAssignments domains budget indices
        | none => some .disjoint

def checkOverlap (left right : PredicateExpr) (maxAssignments : Nat) : Option Overlap :=
  match inspect left ⟨[], []⟩ >>= inspect right with
  | .error reason => some (.unknown reason)
  | .ok found =>
    let domains := found.fields.map fun (name, kind) => (name, domain found.constants kind)
    search left right maxAssignments domains maxAssignments (List.replicate domains.length 0)

/-- The predicates joined by `||`. Empty input has a gap. -/
def union : List PredicateExpr → PredicateExpr
  | [] => .bool false
  | first :: rest => rest.foldl .or first

def checkCoverage (predicates : List PredicateExpr) (maxAssignments : Nat) : Option Coverage := do
  match ← checkOverlap (.not (union predicates)) (.bool true) maxAssignments with
  | .disjoint => return .exhaustive
  | .overlapping witness => return .gap witness
  | .unknown reason => return .unknown reason

end PredicateAnalysis

end Catplay.Model.Lingo
