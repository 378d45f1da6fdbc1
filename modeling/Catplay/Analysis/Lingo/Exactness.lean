import Catplay.Analysis.Lingo.Overlaps

/-!
# Exactness of the predicate analysis

Where every field is used at one kind, the analysis decides whether two predicates hold together
and whether a list of predicates leaves a gap. The limit only stops it short: for each input there
is a number of combinations from which on the answer is the same, and right.
-/

set_option autoImplicit false

namespace Catplay.Analysis.Lingo

open Catplay.Model.Lingo Catplay.Model.Lingo.PredicateAnalysis Catplay.Library

/-! ## Predicates over `u64` and truth values -/

/-- The value of an operand of a comparison: of a field or of a literal. -/
def operand (assigned : PredicateToken → Value) : PredicateExpr → Option Value
  | .field token => some (assigned token)
  | other => literal other

/-- Values of one kind compare; truth values are not ordered. -/
def compares (op : Comparison) : Value → Value → Bool
  | .integer a, .integer b => op.holds a.toNat b.toNat
  | .bool a, .bool b =>
    match op with
    | .eq => a = b
    | .ne => a ≠ b
    | _ => false
  | .integer _, .bool _ | .bool _, .integer _ => op = .ne

/-- **The predicate is true** when each field holds the value it is assigned. -/
def Satisfies (assigned : PredicateToken → Value) : PredicateExpr → Prop
  | .bool value => value = true
  | .integer _ => False
  | .field token => assigned token = .bool true
  | .compare op left right =>
    ∃ a b, operand assigned left = some a ∧ operand assigned right = some b ∧
      compares op a b = true
  | .and left right => Satisfies assigned left ∧ Satisfies assigned right
  | .or left right => Satisfies assigned left ∨ Satisfies assigned right
  | .not inner => ¬ Satisfies assigned inner

/-- The kind of an operand. -/
def operandKind (kinds : PredicateToken → Kind) : PredicateExpr → Option Kind
  | .field token => some (kinds token)
  | other => (literal other).map kindOf

/-- **Every field is used at its kind**: compared with a literal of that kind, an order only
between integers, or standing alone as a truth value. -/
def WellTyped (kinds : PredicateToken → Kind) : PredicateExpr → Prop
  | .bool _ => True
  | .integer _ => False
  | .field token => kinds token = .bool
  | .compare op left right =>
    ((literal left).isSome ∨ (literal right).isSome) ∧
      ∃ kind, operandKind kinds left = some kind ∧ operandKind kinds right = some kind ∧
        (Comparison.isEquality op = true ∨ kind = .integer)
  | .and left right | .or left right => WellTyped kinds left ∧ WellTyped kinds right
  | .not inner => WellTyped kinds inner

/-- The two synthetic fields have the kinds they are made with. -/
structure LawfulKinds (kinds : PredicateToken → Kind) : Prop where
  length : kinds .adjustedPayloadLength = .integer
  transaction : kinds .hasTransactionId = .bool

/-- Every field is assigned a value of its kind. -/
def Respects (kinds : PredicateToken → Kind) (assigned : PredicateToken → Value) : Prop :=
  ∀ token, kindOf (assigned token) = kinds token

/-- The fields that a witness names have the values it gives. -/
def Agrees (assigned : PredicateToken → Value) (witness : List (String × Value)) : Prop :=
  ∀ token value, witness.lookup (key token) = some value → assigned token = value

/-! ## The same assignment for the interpreter -/

/-- The integer that stands for a value. -/
def toInt : Value → Int
  | .integer x => x.toNat
  | .bool b => b.toInt

/-- The assignment with the same values. -/
def asAssignment (assigned : PredicateToken → Value) : Assignment where
  values name := some (toInt (assigned (.field name)))
  length := (toInt (assigned .adjustedPayloadLength)).toNat
  hasTransactionId := assigned .hasTransactionId = .bool true

section Typed

variable {kinds : PredicateToken → Kind} {assigned : PredicateToken → Value}

theorem bool_of_kindOf {value : Value} (h : kindOf value = .bool) : ∃ b, value = .bool b := by
  cases value with
  | integer x => cases h
  | bool b => exact ⟨b, rfl⟩

theorem integer_of_kindOf {value : Value} (h : kindOf value = .integer) :
    ∃ x, value = .integer x := by
  cases value with
  | integer x => exact ⟨x, rfl⟩
  | bool b => cases h

theorem meaning_field (hlawful : LawfulKinds kinds) (hrespects : Respects kinds assigned)
    (token : PredicateToken) :
    meaning (asAssignment assigned) (.field token) = some (toInt (assigned token)) := by
  cases token with
  | field name => rfl
  | adjustedPayloadLength =>
    obtain ⟨x, hx⟩ := integer_of_kindOf ((hrespects _).trans hlawful.length)
    simp [meaning, asAssignment, hx, toInt]
  | hasTransactionId =>
    obtain ⟨b, hb⟩ := bool_of_kindOf ((hrespects _).trans hlawful.transaction)
    cases b <;> simp [meaning, asAssignment, hb, toInt]

theorem fitsKind_asAssignment (hlawful : LawfulKinds kinds) (hrespects : Respects kinds assigned)
    (token : PredicateToken) : FitsKind (asAssignment assigned) token (kinds token) := by
  rw [← hrespects token]
  cases hvalue : assigned token with
  | integer x => exact ⟨x, by rw [meaning_field hlawful hrespects, hvalue]; rfl⟩
  | bool b => exact ⟨b, by rw [meaning_field hlawful hrespects, hvalue]; rfl⟩

/-- An operand has a value of its kind, and the meaning is that value. -/
theorem operand_of_kind (hlawful : LawfulKinds kinds) (hrespects : Respects kinds assigned)
    {expr : PredicateExpr} {kind : Kind} (h : operandKind kinds expr = some kind) :
    ∃ value, operand assigned expr = some value ∧ kindOf value = kind ∧
      meaning (asAssignment assigned) expr = some (toInt value) := by
  cases expr with
  | field token =>
    exact ⟨assigned token, rfl, (hrespects token).trans (Option.some.inj h),
      meaning_field hlawful hrespects token⟩
  | integer x => exact ⟨.integer x, rfl, Option.some.inj h, rfl⟩
  | bool b => exact ⟨.bool b, rfl, Option.some.inj h, rfl⟩
  | compare op left right => cases h
  | and left right => cases h
  | or left right => cases h
  | not inner => cases h

theorem compares_toInt {op : Comparison} {a b : Value} {kind : Kind} (ha : kindOf a = kind)
    (hb : kindOf b = kind) (hop : Comparison.isEquality op = true ∨ kind = .integer) :
    predicate_eval.compare op (some (toInt a)) (some (toInt b)) = compares op a b := by
  cases kind with
  | integer =>
    obtain ⟨x, rfl⟩ := integer_of_kindOf ha
    obtain ⟨y, rfl⟩ := integer_of_kindOf hb
    rfl
  | bool =>
    obtain ⟨x, rfl⟩ := bool_of_kindOf ha
    obtain ⟨y, rfl⟩ := bool_of_kindOf hb
    have hequality : Comparison.isEquality op = true := by simpa using hop
    cases op <;> cases x <;> cases y <;>
      simp_all [predicate_eval.compare, toInt, compares, Comparison.holds, Comparison.isEquality]

/-- **Both meanings of a well-typed predicate agree.** -/
theorem holds_asAssignment (hlawful : LawfulKinds kinds) (hrespects : Respects kinds assigned)
    {expr : PredicateExpr} (h : WellTyped kinds expr) :
    Holds (asAssignment assigned) expr ↔ Satisfies assigned expr := by
  induction expr with
  | bool value => exact holds_bool
  | integer _ => exact h.elim
  | field token =>
    obtain ⟨b, hb⟩ := bool_of_kindOf ((hrespects token).trans h)
    unfold Holds Satisfies
    rw [meaning_field hlawful hrespects, hb]
    simp [toInt]
  | compare op left right _ _ =>
    obtain ⟨-, kind, hleft, hright, hop⟩ := h
    obtain ⟨a, ha, hkindA, hmeaningA⟩ := operand_of_kind hlawful hrespects hleft
    obtain ⟨b, hb, hkindB, hmeaningB⟩ := operand_of_kind hlawful hrespects hright
    unfold Holds Satisfies
    rw [meaning, hmeaningA, hmeaningB, isTrue_toInt, compares_toInt hkindA hkindB hop]
    simp [ha, hb]
  | and left right ihl ihr => rw [holds_and, ihl h.1, ihr h.2, Satisfies]
  | or left right ihl ihr => rw [holds_or, ihl h.1, ihr h.2, Satisfies]
  | not inner ih => rw [holds_not, ih h, Satisfies]

end Typed

/-! ## The inspection accepts the well-typed predicates and no others -/

/-- The recorded kinds are those of the fields. -/
def Recorded (kinds : PredicateToken → Kind) (fields : List (String × Kind)) : Prop :=
  ∀ token kind, fields.lookup (key token) = some kind → kind = kinds token

section Inspecting

variable {kinds : PredicateToken → Kind}

theorem exists_fieldKind (hlawful : LawfulKinds kinds) {fields : List (String × Kind)}
    (hrecorded : Recorded kinds fields) (token : PredicateToken) :
    ∃ after, fieldKind token (kinds token) fields = .ok after ∧ Recorded kinds after := by
  have hsynthetic : ¬ ((token = .adjustedPayloadLength ∧ kinds token ≠ .integer) ∨
      (token = .hasTransactionId ∧ kinds token ≠ .bool)) := by
    rintro (⟨rfl, hne⟩ | ⟨rfl, hne⟩)
    · exact hne hlawful.length
    · exact hne hlawful.transaction
  have hok : ∃ after, fieldKind token (kinds token) fields = .ok after := by
    unfold fieldKind
    rw [if_neg hsynthetic]
    cases hold : fields.lookup (key token) with
    | none => exact ⟨_, rfl⟩
    | some old =>
      refine ⟨fields, ?_⟩
      dsimp only
      rw [if_neg (not_not.mpr (hrecorded token old hold))]
  obtain ⟨after, hafter⟩ := hok
  refine ⟨after, hafter, fun other kind hother => ?_⟩
  rw [fieldKind_ok hafter] at hother
  by_cases hname : key other = key token
  · rw [if_pos hname, Option.some.injEq] at hother
    rw [key_injective hname, hother]
  · rw [if_neg hname] at hother
    exact hrecorded other kind hother

variable {left right expr : PredicateExpr} {before : Inspection}

/-- The two shapes of a well-typed comparison. -/
theorem comparison_shapes {op : Comparison} (h : WellTyped kinds (.compare op left right)) :
    (∃ token value, fieldLiteral left right = some (token, value) ∧ kindOf value = kinds token ∧
        (Comparison.isEquality op = true ∨ kinds token = .integer)) ∨
      ∃ a b, fieldLiteral left right = none ∧ literal left = some a ∧ literal right = some b ∧
        kindOf a = kindOf b ∧ (Comparison.isEquality op = true ∨ kindOf a = .integer) := by
  obtain ⟨hliteral, kind, hleft, hright, hop⟩ := h
  cases left <;> cases right <;>
    simp_all [literal, operandKind, fieldLiteral, kindOf]

theorem exists_inspectComparison (hlawful : LawfulKinds kinds) {op : Comparison}
    (h : WellTyped kinds (.compare op left right)) (hrecorded : Recorded kinds before.fields) :
    ∃ after, inspectComparison op left right before = .ok after ∧
      Recorded kinds after.fields := by
  unfold inspectComparison
  obtain ⟨token, value, hshape, hkind, hop⟩ | ⟨a, b, hshape, ha, hb, hsame, hop⟩ :=
    comparison_shapes h
  · obtain ⟨fields, hfields, hafter⟩ := exists_fieldKind hlawful hrecorded token
    rw [hshape]
    cases value with
    | integer n =>
      rw [← hkind, kindOf] at hfields
      refine ⟨⟨fields, insertConstant n before.constants⟩, ?_, hafter⟩
      dsimp only
      rw [hfields]
      rfl
    | bool b =>
      rw [← hkind, kindOf] at hfields hop
      have hequality : Comparison.isEquality op = true := by simpa using hop
      refine ⟨⟨fields, before.constants⟩, ?_, hafter⟩
      dsimp only
      rw [if_pos hequality, hfields]
      rfl
  · rw [hshape, ha, hb]
    refine ⟨before, ?_, hrecorded⟩
    cases a <;> cases b <;> cases hequality : Comparison.isEquality op <;>
      simp_all [sameKind, kindOf]

theorem exists_inspect (hlawful : LawfulKinds kinds)
    (h : WellTyped kinds expr) (hrecorded : Recorded kinds before.fields) :
    ∃ after, inspect expr before = .ok after ∧ Recorded kinds after.fields := by
  induction expr generalizing before with
  | bool value => exact ⟨before, rfl, hrecorded⟩
  | integer _ => exact h.elim
  | field token =>
    obtain ⟨fields, hfields, hafter⟩ := exists_fieldKind hlawful hrecorded token
    rw [show kinds token = .bool from h] at hfields
    exact ⟨⟨fields, before.constants⟩, by rw [inspect, hfields]; rfl, hafter⟩
  | compare op left right _ _ => exact exists_inspectComparison hlawful h hrecorded
  | and left right ihl ihr | or left right ihl ihr =>
    obtain ⟨middle, hmiddle, hrecordedMiddle⟩ := ihl h.1 hrecorded
    obtain ⟨after, hafter, hrecordedAfter⟩ := ihr h.2 hrecordedMiddle
    exact ⟨after, by rw [inspect, hmiddle]; exact hafter, hrecordedAfter⟩
  | not inner ih => exact ih h hrecorded

/-- What every recorded field keeps, the inspection keeps. -/
theorem inspect_keeps {P : List (String × Kind) → Prop}
    (hkeeps : ∀ token kind before after, P before → fieldKind token kind before = .ok after →
      P after)
    {after : Inspection} (h : inspect expr before = .ok after)
    (hbefore : P before.fields) : P after.fields := by
  induction expr generalizing before after with
  | bool _ =>
    obtain rfl := Except.ok.inj h
    exact hbefore
  | integer _ => cases h
  | field token =>
    obtain ⟨fields, hfields, rfl⟩ : ∃ fields, fieldKind token .bool before.fields = .ok fields ∧
        after = ⟨fields, before.constants⟩ := by
      unfold inspect at h
      cases hfields : fieldKind token .bool before.fields with
      | error reason =>
        rw [hfields] at h
        cases h
      | ok fields =>
        rw [hfields] at h
        exact ⟨fields, rfl, (Except.ok.inj h).symm⟩
    exact hkeeps token _ _ _ hbefore hfields
  | compare op left right _ _ =>
    unfold inspect inspectComparison at h
    split at h
    · rename_i token n _
      cases hfields : fieldKind token .integer before.fields with
      | error reason =>
        rw [hfields] at h
        cases h
      | ok fields =>
        rw [hfields] at h
        obtain rfl := Except.ok.inj h
        exact hkeeps token _ _ _ hbefore hfields
    · rename_i token b _
      split at h
      · cases hfields : fieldKind token .bool before.fields with
        | error reason =>
          rw [hfields] at h
          cases h
        | ok fields =>
          rw [hfields] at h
          obtain rfl := Except.ok.inj h
          exact hkeeps token _ _ _ hbefore hfields
      · cases h
    · split at h
      · split at h
        · cases h
        · obtain rfl := Except.ok.inj h
          exact hbefore
      · cases h
  | and left right ihl ihr | or left right ihl ihr =>
    unfold inspect at h
    cases hleft : inspect left before with
    | error reason =>
      rw [hleft] at h
      cases h
    | ok middle =>
      rw [hleft] at h
      exact ihr h (ihl hleft hbefore)
  | not inner ih => exact ih h hbefore

/-- The kinds under which the fields were recorded. -/
def recordedKinds (fields : List (String × Kind)) (token : PredicateToken) : Kind :=
  (fields.lookup (key token)).getD (if token = .hasTransactionId then .bool else .integer)

theorem recordedKinds_lookup {fields : List (String × Kind)} {token : PredicateToken} {kind : Kind}
    (h : fields.lookup (key token) = some kind) : recordedKinds fields token = kind := by
  rw [recordedKinds, h, Option.getD_some]

theorem lawful_fieldKind {token : PredicateToken} {kind : Kind}
    {before after : List (String × Kind)} (hbefore : LawfulKinds (recordedKinds before))
    (h : fieldKind token kind before = .ok after) : LawfulKinds (recordedKinds after) := by
  have hsynthetic : ¬ ((token = .adjustedPayloadLength ∧ kind ≠ .integer) ∨
      (token = .hasTransactionId ∧ kind ≠ .bool)) := by
    intro hwrong
    rw [fieldKind, if_pos hwrong] at h
    cases h
  have hkinds (other : PredicateToken) : recordedKinds after other =
      if key other = key token then kind else recordedKinds before other := by
    unfold recordedKinds
    rw [fieldKind_ok h]
    split <;> rfl
  constructor
  · rw [hkinds]
    split
    · rename_i hname
      by_contra hne
      exact hsynthetic (.inl ⟨(key_injective hname).symm, hne⟩)
    · exact hbefore.length
  · rw [hkinds]
    split
    · rename_i hname
      by_contra hne
      exact hsynthetic (.inr ⟨(key_injective hname).symm, hne⟩)
    · exact hbefore.transaction

theorem wellTyped_of_inspected {found : Inspection}
    (h : Inspected found expr) : WellTyped (recordedKinds found.fields) expr := by
  induction expr with
  | bool _ => trivial
  | integer _ => exact h
  | field token => exact recordedKinds_lookup h
  | compare op left right _ _ =>
    obtain ⟨token, n, hshape, hkind, -⟩ | ⟨token, b, hshape, hop, hkind⟩ |
      ⟨a, b, ha, hb, hsame, hop⟩ := h
    · have hrecorded := recordedKinds_lookup hkind
      obtain ⟨rfl, hliteral⟩ | ⟨rfl, hliteral⟩ := fieldLiteral_cases hshape
      · obtain ⟨m, rfl, -⟩ | ⟨c, -, hc⟩ := literal_cases hliteral
        · exact ⟨.inr rfl, .integer, congrArg some hrecorded, rfl, .inr rfl⟩
        · cases hc
      · obtain ⟨m, rfl, -⟩ | ⟨c, -, hc⟩ := literal_cases hliteral
        · exact ⟨.inl rfl, .integer, rfl, congrArg some hrecorded, .inr rfl⟩
        · cases hc
    · have hrecorded := recordedKinds_lookup hkind
      obtain ⟨rfl, hliteral⟩ | ⟨rfl, hliteral⟩ := fieldLiteral_cases hshape
      · obtain ⟨m, -, hm⟩ | ⟨c, rfl, -⟩ := literal_cases hliteral
        · cases hm
        · exact ⟨.inr rfl, .bool, congrArg some hrecorded, rfl, .inl hop⟩
      · obtain ⟨m, -, hm⟩ | ⟨c, rfl, -⟩ := literal_cases hliteral
        · cases hm
        · exact ⟨.inl rfl, .bool, rfl, congrArg some hrecorded, .inl hop⟩
    · refine ⟨.inl (by rw [ha]; rfl), kindOf a, ?_, ?_, hop⟩
      · obtain ⟨m, rfl, rfl⟩ | ⟨c, rfl, rfl⟩ := literal_cases ha <;> rfl
      · rw [hsame]
        obtain ⟨m, rfl, rfl⟩ | ⟨c, rfl, rfl⟩ := literal_cases hb <;> rfl
  | and left right ihl ihr | or left right ihl ihr => exact ⟨ihl h.1, ihr h.2⟩
  | not inner ih => exact ih h

/-- The inspection of both predicates, one after the other. -/
theorem inspect_both {found : Inspection}
    (h : (inspect left ⟨[], []⟩ >>= inspect right) = .ok found) :
    ∃ middle, inspect left ⟨[], []⟩ = .ok middle ∧ inspect right middle = .ok found := by
  cases hleft : inspect left ⟨[], []⟩ with
  | error reason =>
    rw [hleft] at h
    cases h
  | ok middle =>
    rw [hleft] at h
    exact ⟨middle, rfl, h⟩

/-- Two predicates whose fields are used at one kind throughout. -/
def WellTypedTogether (left right : PredicateExpr) : Prop :=
  ∃ kinds, LawfulKinds kinds ∧ WellTyped kinds left ∧ WellTyped kinds right

theorem together_of_inspect {found : Inspection}
    (h : (inspect left ⟨[], []⟩ >>= inspect right) = .ok found) :
    WellTypedTogether left right := by
  obtain ⟨middle, hleft, hright⟩ := inspect_both h
  have hlawful : LawfulKinds (recordedKinds found.fields) :=
    inspect_keeps (fun _ _ _ _ => lawful_fieldKind) hright
      (inspect_keeps (fun _ _ _ _ => lawful_fieldKind) hleft ⟨rfl, rfl⟩)
  have hacceptedLeft := @accepted_inspect ⟨fun _ => none, 0, false⟩ _ _ _ hleft
  have hacceptedRight := @accepted_inspect ⟨fun _ => none, 0, false⟩ _ _ _ hright
  exact ⟨recordedKinds found.fields, hlawful,
    wellTyped_of_inspected (hacceptedLeft.inspected.mono hacceptedRight.kept),
    wellTyped_of_inspected hacceptedRight.inspected⟩

end Inspecting

/-! ## The search for a combination -/

/-- The answer of a search that is given `budget` of the `turns` it takes. -/
def limited (turns : Nat) (answer : Overlap) (maxAssignments budget : Nat) : Overlap :=
  if budget < turns then .unknown s!"assignment limit reached ({maxAssignments})" else answer

/-- **The budget only stops the search short**: its answer is the same from a certain budget on. -/
theorem search_answer {left right : PredicateExpr} {domains : List (String × List Value)}
    (heval : ∀ indices, Odometer.Valid (domains.map (·.2.length)) indices →
      ∃ env l r, assignment domains indices = some env ∧ truth left env = some l ∧
        truth right env = some r)
    (remaining : Nat) {indices : List Nat}
    (hvalid : Odometer.Valid (domains.map (·.2.length)) indices)
    (hremaining : (domains.map (·.2.length)).prod ≤
      Odometer.rank (domains.map (·.2.length)) indices + remaining) :
    ∃ turns answer,
      (answer = .disjoint ∨ ∃ indices env, Odometer.Valid (domains.map (·.2.length)) indices ∧
        assignment domains indices = some env ∧ answer = .overlapping env ∧
        MakesBothTrue left right env) ∧
      ∀ maxAssignments budget, search left right maxAssignments domains budget indices =
        some (limited turns answer maxAssignments budget) := by
  induction remaining generalizing indices with
  | zero =>
    have hrank := Odometer.rank_lt_prod hvalid
    omega
  | succ remaining ih =>
    obtain ⟨env, l, r, hassignment, hl, hr⟩ := heval indices hvalid
    by_cases hboth : l = true ∧ r = true
    · obtain ⟨rfl, rfl⟩ := hboth
      refine ⟨1, .overlapping env, .inr ⟨indices, env, hvalid, hassignment, rfl, hl, hr⟩, ?_⟩
      intro maxAssignments budget
      cases budget with
      | zero => rfl
      | succ budget => simp [search, hassignment, hl, hr, limited]
    · have hnot : (do if ← truth left env then truth right env else return false) =
          some false := by
        rw [hl, hr]
        cases l <;> cases r <;> simp_all
      cases hnext : Odometer.advance (domains.map (·.2.length)) indices with
      | none =>
        refine ⟨1, .disjoint, .inl rfl, fun maxAssignments budget => ?_⟩
        cases budget with
        | zero => rfl
        | succ budget =>
          rw [search, hassignment]
          dsimp only
          rw [hnot, hnext, limited, if_neg (by omega)]
      | some next =>
        obtain ⟨hvalidNext, hrankNext⟩ := Odometer.advance_some hvalid hnext
        obtain ⟨turns, answer, hanswer, hsearch⟩ := ih hvalidNext (by omega)
        refine ⟨turns + 1, answer, hanswer, fun maxAssignments budget => ?_⟩
        cases budget with
        | zero => rfl
        | succ budget =>
          rw [search, hassignment]
          dsimp only
          rw [hnot, hnext]
          dsimp only
          rw [hsearch, limited, limited]
          simp only [Nat.add_lt_add_iff_right]

theorem kindOf_of_mem_domain {constants : List UInt64} {kind : Kind} {value : Value}
    (h : value ∈ domain constants kind) : kindOf value = kind := by
  cases kind with
  | bool =>
    obtain rfl | rfl : value = .bool false ∨ value = .bool true := by simpa [domain] using h
    · rfl
    · rfl
  | integer =>
    obtain ⟨x, -, rfl⟩ := List.mem_map.mp h
    rfl

/-- **A combination has a value of its kind for each field** that was recorded, and for no
other. -/
theorem exists_combination {fields : List (String × Kind)} {constants : List UInt64}
    {indices : List Nat}
    (hvalid : Odometer.Valid ((fields.map fun entry => (entry.1, domain constants entry.2)).map
      (·.2.length)) indices) :
    ∃ env, assignment (fields.map fun entry => (entry.1, domain constants entry.2)) indices =
        some env ∧
      ∀ name, (env.lookup name).map kindOf = fields.lookup name := by
  induction fields generalizing indices with
  | nil =>
    cases hvalid
    exact ⟨[], rfl, fun name => rfl⟩
  | cons entry rest ih =>
    obtain ⟨index, tail, hindex, htail, rfl⟩ := List.forall₂_cons_right_iff.mp hvalid
    obtain ⟨env, hassignment, hlookup⟩ := ih htail
    obtain ⟨entryName, entryKind⟩ := entry
    refine ⟨(entryName, (domain constants entryKind)[index]) :: env, ?_, fun name => ?_⟩
    · unfold assignment at hassignment ⊢
      rw [List.map_cons, List.zip_cons_cons, List.mapM_cons, hassignment]
      simp [List.getElem?_eq_getElem hindex]
    · by_cases hname : name = entryName
      · subst hname
        simp only [List.lookup_cons, beq_self_eq_true, Option.map_some]
        exact congrArg some (kindOf_of_mem_domain (List.getElem_mem hindex))
      · simp only [List.lookup_cons, beq_eq_false_iff_ne.mpr hname]
        exact hlookup name

section Combination

variable {kinds : PredicateToken → Kind} {assigned : PredicateToken → Value}
  {found : Inspection} {env : List (String × Value)}

/-- What a combination assigns, and zero or false to the fields it does not name. -/
def fromCombination (kinds : PredicateToken → Kind) (env : List (String × Value))
    (token : PredicateToken) : Value :=
  (env.lookup (key token)).getD
    (match kinds token with
      | .integer => .integer 0
      | .bool => .bool false)

theorem agrees_fromCombination : Agrees (fromCombination kinds env) env := by
  intro token value hvalue
  rw [fromCombination, hvalue, Option.getD_some]

theorem respects_fromCombination (hrecorded : Recorded kinds found.fields)
    (hlookup : ∀ name, (env.lookup name).map kindOf = found.fields.lookup name) :
    Respects kinds (fromCombination kinds env) := by
  intro token
  unfold fromCombination
  cases hvalue : env.lookup (key token) with
  | none => cases hkind : kinds token <;> simp [kindOf]
  | some value =>
    have hfield := hlookup (key token)
    rw [hvalue, Option.map_some] at hfield
    exact hrecorded token _ hfield.symm

theorem stands_asAssignment (hlawful : LawfulKinds kinds) (hrespects : Respects kinds assigned)
    (hagrees : Agrees assigned env)
    (hlookup : ∀ name, (env.lookup name).map kindOf = found.fields.lookup name) :
    Stands (asAssignment assigned) found env := by
  intro token kind hkind
  rw [← hlookup, Option.map_eq_some_iff] at hkind
  obtain ⟨value, hvalue, hkindOf⟩ := hkind
  refine ⟨value, hvalue, hkindOf, ?_⟩
  have hmeaning := meaning_field hlawful hrespects token
  rw [hagrees token value hvalue] at hmeaning
  cases value with
  | integer x => exact ⟨x, hmeaning, fun _ _ => ⟨Iff.rfl, Iff.rfl⟩⟩
  | bool b => exact hmeaning

/-- **A combination evaluates to the truth under every assignment that agrees with it.** -/
theorem truth_of_agrees (hlawful : LawfulKinds kinds) (hrespects : Respects kinds assigned)
    (hagrees : Agrees assigned env)
    (hlookup : ∀ name, (env.lookup name).map kindOf = found.fields.lookup name)
    {expr : PredicateExpr} (htyped : WellTyped kinds expr) (hinspected : Inspected found expr) :
    ∃ b, truth expr env = some b ∧ (b = true ↔ Satisfies assigned expr) :=
  ⟨_, truth_of_stands (stands_asAssignment hlawful hrespects hagrees hlookup) hinspected,
    holds_asAssignment hlawful hrespects htyped⟩

end Combination

/-! ## The answers -/

/-- **The answer about two predicates is right**: it is not left open, they are called disjoint
where no assignment makes both true, and a witness makes both true, whatever else is assigned. -/
structure DecidesOverlap (kinds : PredicateToken → Kind) (left right : PredicateExpr)
    (answer : Overlap) : Prop where
  known : ∀ reason, answer ≠ .unknown reason
  disjoint : answer = .disjoint ↔
    ∀ assigned, Respects kinds assigned → ¬ (Satisfies assigned left ∧ Satisfies assigned right)
  overlapping : ∀ witness, answer = .overlapping witness →
    (∃ assigned, Respects kinds assigned ∧ Agrees assigned witness) ∧
      ∀ assigned, Respects kinds assigned → Agrees assigned witness →
        Satisfies assigned left ∧ Satisfies assigned right

/-- **The answer about a list of predicates is right.** -/
structure DecidesCoverage (kinds : PredicateToken → Kind) (predicates : List PredicateExpr)
    (answer : Coverage) : Prop where
  known : ∀ reason, answer ≠ .unknown reason
  exhaustive : answer = .exhaustive ↔
    ∀ assigned, Respects kinds assigned → ∃ p ∈ predicates, Satisfies assigned p
  gap : ∀ witness, answer = .gap witness →
    (∃ assigned, Respects kinds assigned ∧ Agrees assigned witness) ∧
      ∀ assigned, Respects kinds assigned → Agrees assigned witness →
        ∀ p ∈ predicates, ¬ Satisfies assigned p

section Answers

variable {kinds : PredicateToken → Kind}

theorem fits_asAssignment {assigned : PredicateToken → Value} (hlawful : LawfulKinds kinds)
    (hrespects : Respects kinds assigned) {expr : PredicateExpr} (h : WellTyped kinds expr) :
    Fits (asAssignment assigned) expr := by
  have hfits := fitsKind_asAssignment hlawful hrespects
  induction expr with
  | bool _ => trivial
  | integer _ => trivial
  | field token =>
    have htoken := hfits token
    rw [show kinds token = .bool from h] at htoken
    exact htoken
  | compare op left right _ _ =>
    obtain ⟨token, value, hshape, hkind, -⟩ | ⟨a, b, hshape, -⟩ := comparison_shapes h
    · have htoken := hfits token
      unfold Fits
      rw [hshape]
      cases value with
      | integer n =>
        rw [← hkind] at htoken
        exact htoken
      | bool b =>
        rw [← hkind] at htoken
        exact htoken
    · unfold Fits
      rw [hshape]
      trivial
  | and left right ihl ihr | or left right ihl ihr => exact ⟨ihl h.1, ihr h.2⟩
  | not inner ih => exact ih h

/-- **The overlap analysis decides well-typed predicates**, from a certain limit on. -/
theorem exists_decides (hlawful : LawfulKinds kinds) {left right : PredicateExpr}
    (hleft : WellTyped kinds left) (hright : WellTyped kinds right) :
    ∃ turns answer, DecidesOverlap kinds left right answer ∧ ∀ maxAssignments,
      checkOverlap left right maxAssignments =
        some (limited turns answer maxAssignments maxAssignments) := by
  have hempty : Recorded kinds (⟨[], []⟩ : Inspection).fields := by
    intro token kind hnone
    cases hnone
  obtain ⟨middle, hmiddle, hrecordedMiddle⟩ := exists_inspect hlawful hleft hempty
  obtain ⟨found, hfound, hrecorded⟩ := exists_inspect hlawful hright hrecordedMiddle
  have hacceptedLeft := @accepted_inspect ⟨fun _ => none, 0, false⟩ _ _ _ hmiddle
  have hacceptedRight := @accepted_inspect ⟨fun _ => none, 0, false⟩ _ _ _ hfound
  have hinspectedLeft := hacceptedLeft.inspected.mono hacceptedRight.kept
  have hinspectedRight := hacceptedRight.inspected
  let domains := found.fields.map fun entry => (entry.1, domain found.constants entry.2)
  have heval (indices : List Nat) (hvalid : Odometer.Valid (domains.map (·.2.length)) indices) :
      ∃ env l r, assignment domains indices = some env ∧ truth left env = some l ∧
        truth right env = some r := by
    obtain ⟨env, hassignment, hlookup⟩ := exists_combination hvalid
    obtain ⟨l, hl, -⟩ := truth_of_agrees hlawful (respects_fromCombination hrecorded hlookup)
      agrees_fromCombination hlookup hleft hinspectedLeft
    obtain ⟨r, hr, -⟩ := truth_of_agrees hlawful (respects_fromCombination hrecorded hlookup)
      agrees_fromCombination hlookup hright hinspectedRight
    exact ⟨env, l, r, hassignment, hl, hr⟩
  have hzeros : Odometer.Valid (domains.map (·.2.length)) (List.replicate domains.length 0) := by
    simpa [domains] using Odometer.valid_zeros (domain_length_pos found.fields found.constants)
  obtain ⟨turns, answer, hanswer, hsearch⟩ := search_answer heval _ hzeros (Nat.le_add_left _ _)
  have hoverlap (maxAssignments : Nat) : checkOverlap left right maxAssignments =
      some (limited turns answer maxAssignments maxAssignments) := by
    have hinspect : (inspect left ⟨[], []⟩ >>= inspect right) = .ok found := by
      rw [hmiddle]
      exact hfound
    unfold checkOverlap
    rw [hinspect]
    exact hsearch maxAssignments maxAssignments
  refine ⟨turns, answer, ?_, hoverlap⟩
  obtain rfl | ⟨indices, env, hvalid, hassignment, rfl, htruthLeft, htruthRight⟩ := hanswer
  · refine ⟨fun reason => by simp, ⟨fun _ assigned hrespects => ?_, fun _ => rfl⟩,
      fun witness h => by cases h⟩
    have hdisjoint : checkOverlap left right turns = some .disjoint := by
      rw [hoverlap, limited, if_neg (Nat.lt_irrefl turns)]
    rw [← holds_asAssignment hlawful hrespects hleft, ← holds_asAssignment hlawful hrespects hright]
    exact not_both_of_disjoint hdisjoint (fits_asAssignment hlawful hrespects hleft)
      (fits_asAssignment hlawful hrespects hright)
  · obtain ⟨other, hother, hlookup⟩ := exists_combination hvalid
    obtain rfl : env = other := by
      rw [hassignment] at hother
      exact Option.some.inj hother
    have hrespects := respects_fromCombination hrecorded hlookup
    have hboth (assigned : PredicateToken → Value) (hassigned : Respects kinds assigned)
        (hagrees : Agrees assigned env) : Satisfies assigned left ∧ Satisfies assigned right := by
      obtain ⟨l, hl, hleftIff⟩ :=
        truth_of_agrees hlawful hassigned hagrees hlookup hleft hinspectedLeft
      obtain ⟨r, hr, hrightIff⟩ :=
        truth_of_agrees hlawful hassigned hagrees hlookup hright hinspectedRight
      rw [htruthLeft] at hl
      rw [htruthRight] at hr
      exact ⟨hleftIff.mp (Option.some.inj hl).symm, hrightIff.mp (Option.some.inj hr).symm⟩
    refine ⟨fun reason => by simp, ⟨fun h => (by cases h), fun hnone => ?_⟩, fun witness h => ?_⟩
    · exact (hnone _ hrespects (hboth _ hrespects agrees_fromCombination)).elim
    · obtain rfl := Overlap.overlapping.inj h
      exact ⟨⟨_, hrespects, agrees_fromCombination⟩, hboth⟩

/-- **The predicates outside the analysis are left open**, whatever the limit. -/
theorem exists_unknown {left right : PredicateExpr} (h : ¬ WellTypedTogether left right) :
    ∃ reason, ∀ maxAssignments, checkOverlap left right maxAssignments =
      some (.unknown reason) := by
  cases hinspect : inspect left ⟨[], []⟩ >>= inspect right with
  | error reason =>
    refine ⟨reason, fun maxAssignments => ?_⟩
    unfold checkOverlap
    rw [hinspect]
  | ok found => exact (h (together_of_inspect hinspect)).elim

/-! ## Coverage -/

/-- The answer about coverage that an answer about the union gives. -/
def asCoverage : Overlap → Coverage
  | .disjoint => .exhaustive
  | .overlapping witness => .gap witness
  | .unknown reason => .unknown reason

theorem checkCoverage_eq (predicates : List PredicateExpr) (maxAssignments : Nat) :
    checkCoverage predicates maxAssignments =
      (checkOverlap (.not (union predicates)) (.bool true) maxAssignments).map asCoverage := by
  unfold checkCoverage
  cases checkOverlap (.not (union predicates)) (.bool true) maxAssignments with
  | none => rfl
  | some answer => cases answer <;> rfl

variable {predicates : List PredicateExpr}

theorem satisfies_union {assigned : PredicateToken → Value} :
    Satisfies assigned (union predicates) ↔ ∃ p ∈ predicates, Satisfies assigned p := by
  cases predicates with
  | nil => simp [union, Satisfies]
  | cons first rest =>
    rw [union, List.exists_mem_cons_iff]
    induction rest generalizing first with
    | nil => simp
    | cons p rest ih => rw [List.foldl_cons, ih, Satisfies, List.exists_mem_cons_iff, or_assoc]

theorem wellTyped_union :
    WellTyped kinds (union predicates) ↔ ∀ p ∈ predicates, WellTyped kinds p := by
  cases predicates with
  | nil => simp [union, WellTyped]
  | cons first rest =>
    rw [union, List.forall_mem_cons]
    induction rest generalizing first with
    | nil => simp
    | cons p rest ih => rw [List.foldl_cons, ih, WellTyped, List.forall_mem_cons, and_assoc]

theorem exists_decides_coverage (hlawful : LawfulKinds kinds)
    (h : ∀ p ∈ predicates, WellTyped kinds p) :
    ∃ turns answer, DecidesCoverage kinds predicates (asCoverage answer) ∧ ∀ maxAssignments,
      checkCoverage predicates maxAssignments =
        some (asCoverage (limited turns answer maxAssignments maxAssignments)) := by
  have hunion : WellTyped kinds (.not (union predicates)) := wellTyped_union.mpr h
  have htrue : WellTyped kinds (.bool true) := trivial
  obtain ⟨turns, answer, hdecides, hoverlap⟩ := exists_decides hlawful hunion htrue
  have hsatisfies (assigned : PredicateToken → Value) :
      (Satisfies assigned (.not (union predicates)) ∧ Satisfies assigned (.bool true)) ↔
        ¬ ∃ p ∈ predicates, Satisfies assigned p := by
    rw [← satisfies_union]
    simp [Satisfies]
  refine ⟨turns, answer, ⟨?_, ?_, ?_⟩, fun maxAssignments => ?_⟩
  · intro reason hreason
    cases answer with
    | unknown other => exact hdecides.known other rfl
    | disjoint => cases hreason
    | overlapping witness => cases hreason
  · have hanswer : asCoverage answer = .exhaustive ↔ answer = .disjoint := by
      cases answer <;> simp [asCoverage]
    rw [hanswer, hdecides.disjoint]
    simp only [hsatisfies, not_not]
  · intro witness hwitness
    have hanswer : answer = .overlapping witness := by
      cases answer <;> simp_all [asCoverage]
    obtain ⟨hexists, hall⟩ := hdecides.overlapping witness hanswer
    refine ⟨hexists, fun assigned hrespects hagrees p hp hholds => ?_⟩
    exact (hsatisfies assigned).mp (hall assigned hrespects hagrees) ⟨p, hp, hholds⟩
  · rw [checkCoverage_eq, hoverlap, Option.map_some]

end Answers

/-- **The analysis is exact where every field is used at one kind, and leaves the rest open.** From
a certain limit on the answer is the right one, and every lower limit gives the answer that the
limit was reached. -/
theorem analysis_exact :
    (∀ kinds left right, LawfulKinds kinds → WellTyped kinds left → WellTyped kinds right →
      ∃ turns answer, DecidesOverlap kinds left right answer ∧ ∀ maxAssignments,
        checkOverlap left right maxAssignments =
          some (if maxAssignments < turns then
            .unknown s!"assignment limit reached ({maxAssignments})" else answer)) ∧
    (∀ kinds predicates, LawfulKinds kinds → (∀ p ∈ predicates, WellTyped kinds p) →
      ∃ turns answer, DecidesCoverage kinds predicates answer ∧ ∀ maxAssignments,
        checkCoverage predicates maxAssignments =
          some (if maxAssignments < turns then
            .unknown s!"assignment limit reached ({maxAssignments})" else answer)) ∧
    (∀ left right, ¬ WellTypedTogether left right → ∃ reason, ∀ maxAssignments,
      checkOverlap left right maxAssignments = some (.unknown reason)) ∧
    ∀ predicates, (¬ ∃ kinds, LawfulKinds kinds ∧ ∀ p ∈ predicates, WellTyped kinds p) →
      ∃ reason, ∀ maxAssignments,
        checkCoverage predicates maxAssignments = some (.unknown reason) := by
  refine ⟨fun kinds left right hlawful hleft hright => ?_, fun kinds predicates hlawful h => ?_,
    fun left right h => exists_unknown h, fun predicates h => ?_⟩
  · exact exists_decides hlawful hleft hright
  · obtain ⟨turns, answer, hdecides, hcoverage⟩ := exists_decides_coverage hlawful h
    refine ⟨turns, asCoverage answer, hdecides, fun maxAssignments => ?_⟩
    rw [hcoverage, limited]
    split <;> rfl
  · have hopen : ¬ WellTypedTogether (.not (union predicates)) (.bool true) := by
      rintro ⟨kinds, hlawful, hunion, -⟩
      exact h ⟨kinds, hlawful, wellTyped_union.mp hunion⟩
    obtain ⟨reason, hoverlap⟩ := exists_unknown hopen
    refine ⟨reason, fun maxAssignments => ?_⟩
    rw [checkCoverage_eq, hoverlap]
    rfl

/-- Every named field an integer. -/
def integerFields : PredicateToken → Kind
  | .hasTransactionId => .bool
  | _ => .integer

theorem analysis_exact_selector :
    ∃ turns answer, DecidesOverlap integerFields (selectorIs 3) (selectorIs 4) answer ∧
      ∀ maxAssignments, checkOverlap (selectorIs 3) (selectorIs 4) maxAssignments =
        some (if maxAssignments < turns then
          .unknown s!"assignment limit reached ({maxAssignments})" else answer) := by
  have htyped (n : UInt64) : WellTyped integerFields (selectorIs n) :=
    ⟨.inr rfl, .integer, rfl, rfl, .inl rfl⟩
  exact analysis_exact.1 integerFields (selectorIs 3) (selectorIs 4) ⟨rfl, rfl⟩ (htyped 3)
    (htyped 4)

/-- A field that is compared with a number and with a truth value is never both; the analysis
leaves the question open although it has no limit to reach. -/
theorem mixed_kinds_left_open :
    (∀ assigned, ¬ (Satisfies assigned (selectorIs 3) ∧
      Satisfies assigned (.compare .eq (.field (.field "selector")) (.bool true)))) ∧
    ∀ maxAssignments, checkOverlap (selectorIs 3)
        (.compare .eq (.field (.field "selector")) (.bool true)) maxAssignments =
      some (.unknown "field used as both integer and boolean") := by
  constructor
  · rintro assigned ⟨⟨a, b, ha, hb, hnumber⟩, ⟨c, d, hc, hd, htruth⟩⟩
    obtain rfl := Option.some.inj ha
    obtain rfl := Option.some.inj hb
    obtain rfl := Option.some.inj hc
    obtain rfl := Option.some.inj hd
    cases hvalue : assigned (.field "selector") with
    | integer x => simp [compares, hvalue] at htruth
    | bool b => simp [compares, hvalue] at hnumber
  · intro maxAssignments
    rfl

end Catplay.Analysis.Lingo
