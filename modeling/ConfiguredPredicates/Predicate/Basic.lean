import ConfiguredPredicates.Json.Printer

/-!
Predicates over the properties of an object: property expressions, the
combinators that join predicates, and bare primitives. A property has to meet a
condition: be a primitive, be present or absent, be one of several primitives,
or contain what meets a predicate. Nothing here evaluates a predicate; `toJson`
is the JSON tree that a predicate is read from.
-/

namespace ConfiguredPredicates

/-- Keys that start with this character are reserved for operators. -/
def operatorMark : Char := '$'

def isOperatorKey (key : String) : Bool := key.toList.head? == some operatorMark

inductive Operator where
  | all
  | any
  | not
  | present
  | oneOf
  | contains
deriving DecidableEq, Repr

namespace Operator

def key : Operator → String
  | .all => "$all"
  | .any => "$any"
  | .not => "$not"
  | .present => "$exists"
  | .oneOf => "$in"
  | .contains => "$contains"

def ofKey? : String → Option Operator
  | "$all" => some .all
  | "$any" => some .any
  | "$not" => some .not
  | "$exists" => some .present
  | "$in" => some .oneOf
  | "$contains" => some .contains
  | _ => none

/-- The operators that make predicates of predicates. -/
def isCombinator : Operator → Bool
  | .all | .any | .not => true
  | .present | .oneOf | .contains => false

theorem isCombinator_eq_true_iff {op : Operator} :
    op.isCombinator = true ↔ op = .all ∨ op = .any ∨ op = .not := by
  cases op <;> decide

theorem isCombinator_eq_false_iff {op : Operator} :
    op.isCombinator = false ↔ op = .present ∨ op = .oneOf ∨ op = .contains := by
  cases op <;> decide

def apply (op : Operator) (operand : Json) : Json := .object [(op.key, operand)]

theorem ordered_operand {op : Operator} {operand : Json} (h : (op.apply operand).Ordered) :
    operand.Ordered :=
  h.of_member (op.key, operand) List.mem_cons_self

theorem nesting_apply (op : Operator) (operand : Json) :
    (op.apply operand).nesting = operand.nesting + 1 := by
  simp [apply, Json.nesting, Json.nestingMembers]

theorem ofKey?_eq_some_iff {key : String} {op : Operator} :
    ofKey? key = some op ↔ key = op.key := by
  constructor
  · intro h
    unfold ofKey? at h
    split at h
    case h_7 => cases h
    all_goals (cases h; rfl)
  · rintro rfl
    cases op <;> rfl

@[simp] theorem ofKey?_key (op : Operator) : ofKey? op.key = some op :=
  ofKey?_eq_some_iff.2 rfl

theorem ofKey?_eq_none_iff {key : String} :
    ofKey? key = none ↔ ∀ op : Operator, key ≠ op.key := by
  simp only [Option.eq_none_iff_forall_ne_some, ne_eq, ofKey?_eq_some_iff]

@[simp] theorem isOperatorKey_key (op : Operator) : isOperatorKey op.key = true := by
  cases op <;> decide

end Operator

inductive Primitive where
  | string (s : String)
  | number (n : Number)
  | bool (b : Bool)

namespace Primitive

def ofJson? : Json → Option Primitive
  | .string s => some (.string s)
  | .number n => some (.number n)
  | .bool b => some (.bool b)
  | _ => none

def toJson : Primitive → Json
  | .string s => .string s
  | .number n => .number n
  | .bool b => .bool b

def equal : Primitive → Primitive → Bool
  | .string a, .string b => a == b
  | .number a, .number b => a == b
  | .bool a, .bool b => a == b
  | _, _ => false

instance : BEq Primitive := ⟨equal⟩

@[simp] theorem ofJson?_toJson (p : Primitive) : ofJson? p.toJson = some p := by
  cases p <;> rfl

theorem toJson_of_ofJson? {v : Json} {p : Primitive} (h : ofJson? v = some p) :
    p.toJson = v := by
  cases v <;> cases h <;> rfl

end Primitive

mutual
inductive Predicate where
  | expression (properties : List (String × Condition))
  | all (operands : List Predicate)
  | any (operands : List Predicate)
  | not (operand : Predicate)
  | primitive (p : Primitive)

/-- What the value of a property has to meet. -/
inductive Condition where
  | primitive (p : Primitive)
  | present (expected : Bool)
  | oneOf (choices : List Primitive)
  | contains (element : Predicate)
end

instance : Inhabited Predicate := ⟨.expression []⟩

instance : Inhabited Condition := ⟨.present true⟩

mutual
def Predicate.toJson : Predicate → Json
  | .expression properties => .object (Entries.ofList (Predicate.propertiesToJson properties))
  | .all operands => Operator.all.apply (.array (Predicate.listToJson operands))
  | .any operands => Operator.any.apply (.array (Predicate.listToJson operands))
  | .not operand => Operator.not.apply operand.toJson
  | .primitive p => p.toJson

def Predicate.listToJson : List Predicate → List Json
  | [] => []
  | p :: rest => p.toJson :: Predicate.listToJson rest

def Predicate.propertiesToJson : List (String × Condition) → List (String × Json)
  | [] => []
  | (key, condition) :: rest => (key, condition.toJson) :: Predicate.propertiesToJson rest

def Condition.toJson : Condition → Json
  | .primitive p => p.toJson
  | .present expected => Operator.present.apply (.bool expected)
  | .oneOf choices => Operator.oneOf.apply (.array (choices.map Primitive.toJson))
  | .contains element => Operator.contains.apply element.toJson
end

theorem Predicate.listToJson_eq_map (operands : List Predicate) :
    Predicate.listToJson operands = operands.map Predicate.toJson := by
  induction operands with
  | nil => rfl
  | cons p rest ih => rw [Predicate.listToJson, ih, List.map_cons]

theorem Predicate.propertiesToJson_eq_map (properties : List (String × Condition)) :
    Predicate.propertiesToJson properties =
      properties.map fun property => (property.1, property.2.toJson) := by
  induction properties with
  | nil => rfl
  | cons property rest ih => rw [Predicate.propertiesToJson, ih, List.map_cons]

/-- The members of a written expression are its properties. -/
theorem Predicate.exists_property_of_mem {properties : List (String × Condition)}
    {member : String × Json}
    (h : member ∈ Entries.ofList (Predicate.propertiesToJson properties)) :
    ∃ property ∈ properties, (property.1, property.2.toJson) = member := by
  have hmember := Entries.mem_of_mem_ofList h
  rwa [Predicate.propertiesToJson_eq_map, List.mem_map] at hmember

mutual
/-- Numbers inside compare by value, as those of JSON trees do. -/
def Predicate.equal : Predicate → Predicate → Bool
  | .expression as, .expression bs => Predicate.equalProperties as bs
  | .all as, .all bs => Predicate.equalLists as bs
  | .any as, .any bs => Predicate.equalLists as bs
  | .not a, .not b => a.equal b
  | .primitive a, .primitive b => a == b
  | _, _ => false

def Predicate.equalLists : List Predicate → List Predicate → Bool
  | [], [] => true
  | a :: as, b :: bs => a.equal b && Predicate.equalLists as bs
  | _, _ => false

def Predicate.equalProperties :
    List (String × Condition) → List (String × Condition) → Bool
  | [], [] => true
  | (k, a) :: as, (l, b) :: bs => k == l && a.equal b && Predicate.equalProperties as bs
  | _, _ => false

def Condition.equal : Condition → Condition → Bool
  | .primitive a, .primitive b => a == b
  | .present a, .present b => a == b
  | .oneOf as, .oneOf bs => as == bs
  | .contains a, .contains b => a.equal b
  | _, _ => false
end

instance : BEq Predicate := ⟨Predicate.equal⟩

instance : BEq Condition := ⟨Condition.equal⟩

mutual
/-- How many steps lead to the innermost predicate or condition. -/
def Predicate.depth : Predicate → Nat
  | .expression properties => Predicate.propertiesDepth properties
  | .all operands => Predicate.listDepth operands
  | .any operands => Predicate.listDepth operands
  | .not operand => operand.depth + 1
  | .primitive _ => 0

/-- Zero without operands, else one more than the deepest of them. -/
def Predicate.listDepth : List Predicate → Nat
  | [] => 0
  | p :: rest => max (p.depth + 1) (Predicate.listDepth rest)

def Predicate.propertiesDepth : List (String × Condition) → Nat
  | [] => 0
  | (_, condition) :: rest => max (condition.depth + 1) (Predicate.propertiesDepth rest)

def Condition.depth : Condition → Nat
  | .contains element => element.depth + 1
  | _ => 0
end

namespace Predicate

def kind : Predicate → String
  | .expression _ => "expression"
  | .all _ => Operator.all.key
  | .any _ => Operator.any.key
  | .not _ => Operator.not.key
  | .primitive _ => "primitive"

def render (p : Predicate) : String := p.toJson.compact

end Predicate

def Condition.render (c : Condition) : String := c.toJson.compact

def Primitive.render (p : Primitive) : String := p.toJson.compact

end ConfiguredPredicates
