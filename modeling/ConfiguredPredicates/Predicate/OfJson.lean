import ConfiguredPredicates.Predicate.Violation

/-!
Predicates from JSON trees. Each layer looks at one node and leaves its children
to the readers it is given; `predicateWithin` and `conditionWithin` stack the
layers up to a number of levels, so nothing below the limit is ever looked at.
The first violation in the order of the tree is reported, and its path is built
on the way out. A node's depth is checked before its shape.
-/

namespace ConfiguredPredicates

/-- The result of reading a part, with violations placed under the step to it. -/
def Violation.within (step : Segment) (result : Except Violation α) : Except Violation α :=
  result.mapError (Violation.under step)

@[simp] theorem Violation.within_ok (step : Segment) (a : α) :
    Violation.within step (.ok a : Except Violation α) = .ok a := rfl

@[simp] theorem Violation.within_error (step : Segment) (x : Violation) :
    Violation.within step (.error x : Except Violation α) = .error (x.under step) := rfl

namespace OfJson

/-- Reads list items in turn, the first at the given position. -/
def items (read : Json → Except Violation α) : (position : Nat) → List Json →
    Except Violation (List α)
  | _, [] => .ok []
  | position, item :: rest => do
    let first ← Violation.within (.index position) (read item)
    let others ← items read (position + 1) rest
    .ok (first :: others)

def properties (read : Json → Except Violation α) : List (String × Json) →
    Except Violation (List (String × α))
  | [] => .ok []
  | (key, value) :: rest => do
    let first ← Violation.within (.key key) (read value)
    let others ← properties read rest
    .ok ((key, first) :: others)

def expression (read : Json → Except Violation Condition) (members : List (String × Json)) :
    Except Violation Predicate := do
  let conditions ← properties read members
  .ok (.expression (Entries.ofList conditions))

def operands (read : Json → Except Violation α) : Json → Except Violation (List α)
  | .array values => items read 0 values
  | other => .error (.here (.unexpected .predicates other.kind))

def primitive (v : Json) : Except Violation Primitive :=
  match Primitive.ofJson? v with
  | some p => .ok p
  | none => .error (.here (.unexpected .primitive v.kind))

def choices : Json → Except Violation (List Primitive)
  | .array values => items primitive 0 values
  | other => .error (.here (.unexpected .primitives other.kind))

def flag : Json → Except Violation Bool
  | .bool b => .ok b
  | other => .error (.here (.unexpected .boolean other.kind))

def soleMember : List (String × Json) → Except Violation (String × Json)
  | [member] => .ok member
  | members => .error (.here (.sharedOperator (Entries.keys members)))

def usesOperator (members : List (String × Json)) : Bool :=
  members.any fun member => isOperatorKey member.1

theorem usesOperator_eq_true_iff {members : List (String × Json)} :
    usesOperator members = true ↔ ∃ member ∈ members, isOperatorKey member.1 = true := by
  rw [usesOperator, List.any_eq_true]

theorem usesOperator_eq_false_iff {members : List (String × Json)} :
    usesOperator members = false ↔ ∀ member ∈ members, isOperatorKey member.1 = false := by
  simp only [usesOperator, List.any_eq_false, Bool.not_eq_true]

def combination (read : Json → Except Violation Predicate) (key : String) (operand : Json) :
    Except Violation Predicate :=
  match Operator.ofKey? key with
  | some .all => Predicate.all <$> operands read operand
  | some .any => Predicate.any <$> operands read operand
  | some .not => Predicate.not <$> read operand
  | some op => .error (.here (.conditionOperator op))
  | none => .error (.here (.unknownOperator key))

def requirement (read : Json → Except Violation Predicate) (key : String) (operand : Json) :
    Except Violation Condition :=
  match Operator.ofKey? key with
  | some .present => Condition.present <$> flag operand
  | some .oneOf => Condition.oneOf <$> choices operand
  | some .contains => Condition.contains <$> read operand
  | some op => .error (.here (.combinator op))
  | none => .error (.here (.unknownOperator key))

def predicateLayer (readPredicate : Json → Except Violation Predicate)
    (readCondition : Json → Except Violation Condition) (v : Json) :
    Except Violation Predicate :=
  match Primitive.ofJson? v, v with
  | some p, _ => .ok (.primitive p)
  | none, .object members =>
    if usesOperator members then do
      let (key, operand) ← soleMember members
      Violation.within (.key key) (combination readPredicate key operand)
    else expression readCondition members
  | none, other => .error (.here (.unexpected .predicate other.kind))

def conditionLayer (readPredicate : Json → Except Violation Predicate) (v : Json) :
    Except Violation Condition :=
  match Primitive.ofJson? v, v with
  | some p, _ => .ok (.primitive p)
  | none, .object members =>
    if usesOperator members then do
      let (key, operand) ← soleMember members
      Violation.within (.key key) (requirement readPredicate key operand)
    else .error (.here .plainObject)
  | none, other => .error (.here (.unexpected .condition other.kind))

mutual
/-- A predicate of at most the given number of levels, the node itself counted. -/
def predicateWithin (limit : Nat) : (levels : Nat) → Json → Except Violation Predicate
  | 0, _ => .error (.here (.tooDeep limit))
  | levels + 1, v =>
    predicateLayer (predicateWithin limit levels) (conditionWithin limit levels) v

def conditionWithin (limit : Nat) : (levels : Nat) → Json → Except Violation Condition
  | 0, _ => .error (.here (.tooDeep limit))
  | levels + 1, v => conditionLayer (predicateWithin limit levels) v
end

end OfJson

def Predicate.ofJsonWithin (limit : Nat) (v : Json) : Except Violation Predicate :=
  OfJson.predicateWithin limit (limit + 1) v

def Condition.ofJsonWithin (limit : Nat) (v : Json) : Except Violation Condition :=
  OfJson.conditionWithin limit (limit + 1) v

def standardDepth : Nat := 64

def Predicate.ofJson : Json → Except Violation Predicate := Predicate.ofJsonWithin standardDepth

def Condition.ofJson : Json → Except Violation Condition := Condition.ofJsonWithin standardDepth

end ConfiguredPredicates
