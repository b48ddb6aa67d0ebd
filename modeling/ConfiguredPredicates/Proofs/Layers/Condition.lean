import ConfiguredPredicates.Proofs.Layers.Predicate

/-!
What one layer of reading makes of a node in the place of a condition, by the same
two descriptions as for predicates.
-/

namespace ConfiguredPredicates

namespace OfJson

section
variable (readPredicate : Json → Except Violation Predicate)

inductive AcceptsCondition : Json → Condition → Prop
  | primitive (p : Primitive) : AcceptsCondition p.toJson (.primitive p)
  | present (expected : Bool) :
      AcceptsCondition (Operator.present.apply (.bool expected)) (.present expected)
  | oneOf (choices : List Primitive) :
      AcceptsCondition (Operator.oneOf.apply (.array (choices.map Primitive.toJson)))
        (.oneOf choices)
  | contains {operand : Json} {p : Predicate} : readPredicate operand = .ok p →
      AcceptsCondition (Operator.contains.apply operand) (.contains p)

inductive RefusesCondition : Json → Violation → Prop
  | unexpected {v : Json} : v.kind = .null ∨ v.kind = .array →
      RefusesCondition v (.here (.unexpected .condition v.kind))
  | plainObject {members : List (String × Json)} : usesOperator members = false →
      RefusesCondition (.object members) (.here .plainObject)
  | sharedOperator {members : List (String × Json)} : usesOperator members = true →
      members.length ≠ 1 →
      RefusesCondition (.object members) (.here (.sharedOperator (Entries.keys members)))
  | flag {operand : Json} : operand.kind ≠ .boolean →
      RefusesCondition (Operator.present.apply operand)
        (.under (.key Operator.present.key) (.here (.unexpected .boolean operand.kind)))
  | choices {operand : Json} : operand.kind ≠ .array →
      RefusesCondition (Operator.oneOf.apply operand)
        (.under (.key Operator.oneOf.key) (.here (.unexpected .primitives operand.kind)))
  | choice {values before : List Json} {v : Json} {x : Violation} :
      FirstFailure primitive values before v x →
      RefusesCondition (Operator.oneOf.apply (.array values))
        (.under (.key Operator.oneOf.key) (x.under (.index before.length)))
  | contains {operand : Json} {x : Violation} : readPredicate operand = .error x →
      RefusesCondition (Operator.contains.apply operand) (x.under (.key Operator.contains.key))
  | combinator {op : Operator} {operand : Json} : op.isCombinator = true →
      RefusesCondition (op.apply operand) (.under (.key op.key) (.here (.combinator op)))
  | unknownOperator {key : String} {operand : Json} : isOperatorKey key = true →
      Operator.ofKey? key = none →
      RefusesCondition (.object [(key, operand)]) (.under (.key key) (.here (.unknownOperator key)))

end

variable {readPredicate : Json → Except Violation Predicate}

theorem conditionLayer_sole {key : String} (hkey : isOperatorKey key = true) (operand : Json) :
    conditionLayer readPredicate (.object [(key, operand)]) =
      Violation.within (.key key) (requirement readPredicate key operand) := by
  simp [conditionLayer, Primitive.ofJson?, usesOperator, soleMember, hkey, bind, Except.bind]

theorem conditionLayer_apply (op : Operator) (operand : Json) :
    conditionLayer readPredicate (op.apply operand) =
      Violation.within (.key op.key) (requirement readPredicate op.key operand) :=
  conditionLayer_sole op.isOperatorKey_key operand

theorem primitive_of_ofJson? {v : Json} {p : Primitive} (h : Primitive.ofJson? v = some p) :
    primitive v = .ok p := by
  simp [primitive, h]

theorem primitive_eq_ok_iff {v : Json} {p : Primitive} : primitive v = .ok p ↔ v = p.toJson := by
  constructor
  · intro h
    cases hp : Primitive.ofJson? v with
    | none => simp [primitive, hp] at h
    | some q =>
      rw [primitive_of_ofJson? hp] at h
      cases h
      exact (Primitive.toJson_of_ofJson? hp).symm
  · rintro rfl
    exact primitive_of_ofJson? (Primitive.ofJson?_toJson p)

theorem choices_toJson (choices : List Primitive) :
    items primitive 0 (choices.map Primitive.toJson) = .ok choices := by
  refine items_of_forall₂ ?_ 0
  rw [List.forall₂_map_left_iff, List.forall₂_same]
  exact fun p _ => primitive_eq_ok_iff.2 rfl

theorem conditionLayer_of_accepts {v : Json} {c : Condition}
    (h : AcceptsCondition readPredicate v c) : conditionLayer readPredicate v = .ok c := by
  cases h with
  | primitive p => simp [conditionLayer]
  | present expected =>
    simp only [conditionLayer_apply, requirement, Operator.ofKey?_key]
    rfl
  | oneOf choices =>
    simp only [conditionLayer_apply, requirement, Operator.ofKey?_key, OfJson.choices,
      choices_toJson]
    rfl
  | contains hread =>
    simp only [conditionLayer_apply, requirement, Operator.ofKey?_key, hread]
    rfl

theorem conditionLayer_of_refuses {v : Json} {x : Violation}
    (h : RefusesCondition readPredicate v x) : conditionLayer readPredicate v = .error x := by
  cases h with
  | unexpected hkind =>
    rcases hkind with hkind | hkind
    · obtain rfl := Json.kind_eq_null_iff.1 hkind
      rfl
    · obtain ⟨values, rfl⟩ := Json.kind_eq_array_iff.1 hkind
      rfl
  | plainObject hplain => simp [conditionLayer, Primitive.ofJson?, hplain]
  | sharedOperator huses hlength =>
    simp [conditionLayer, Primitive.ofJson?, huses, soleMember_of_length_ne hlength, bind,
      Except.bind]
  | @flag operand hkind =>
    simp only [conditionLayer_apply, requirement, Operator.ofKey?_key]
    cases operand <;> first | rfl | exact absurd rfl hkind
  | @choices operand hkind =>
    simp only [conditionLayer_apply, requirement, Operator.ofKey?_key]
    cases operand <;> first | rfl | exact absurd rfl hkind
  | choice hfirst =>
    simp only [conditionLayer_apply, requirement, Operator.ofKey?_key, choices,
      items_of_firstFailure hfirst, Nat.zero_add]
    rfl
  | contains hread =>
    simp only [conditionLayer_apply, requirement, Operator.ofKey?_key, hread]
    rfl
  | @combinator op operand hop =>
    simp only [conditionLayer_apply, requirement, Operator.ofKey?_key]
    cases op <;> first | rfl | cases hop
  | unknownOperator hkey hunknown =>
    simp only [conditionLayer_sole hkey, requirement, hunknown]
    rfl

theorem present_accepts_or_refuses (operand : Json) :
    (∃ c, AcceptsCondition readPredicate (Operator.present.apply operand) c) ∨
      ∃ x, RefusesCondition readPredicate (Operator.present.apply operand) x := by
  by_cases hkind : operand.kind = .boolean
  · obtain ⟨expected, rfl⟩ := Json.kind_eq_boolean_iff.1 hkind
    exact .inl ⟨_, .present expected⟩
  · exact .inr ⟨_, .flag hkind⟩

theorem oneOf_accepts_or_refuses (operand : Json) :
    (∃ c, AcceptsCondition readPredicate (Operator.oneOf.apply operand) c) ∨
      ∃ x, RefusesCondition readPredicate (Operator.oneOf.apply operand) x := by
  by_cases hkind : operand.kind = .array
  · obtain ⟨values, rfl⟩ := Json.kind_eq_array_iff.1 hkind
    rcases forall_ok_or_firstFailure primitive values with hall | ⟨before, v, x, hfirst⟩
    · obtain ⟨choices, hall⟩ := exists_forall₂_iff.2 hall
      have hvalues : values = choices.map Primitive.toJson := by
        rw [← List.forall₂_eq_eq_eq, List.forall₂_map_right_iff]
        exact hall.imp fun _ _ h => primitive_eq_ok_iff.1 h
      subst hvalues
      exact .inl ⟨_, .oneOf choices⟩
    · exact .inr ⟨_, .choice hfirst⟩
  · exact .inr ⟨_, .choices hkind⟩

theorem condition_accepts_or_refuses (readPredicate : Json → Except Violation Predicate)
    (v : Json) :
    (∃ c, AcceptsCondition readPredicate v c) ∨ ∃ x, RefusesCondition readPredicate v x := by
  cases hprimitive : Primitive.ofJson? v with
  | some p =>
    obtain rfl := Primitive.toJson_of_ofJson? hprimitive
    exact .inl ⟨_, .primitive p⟩
  | none =>
    cases v with
    | bool | number | string => cases hprimitive
    | null => exact .inr ⟨_, .unexpected (.inl rfl)⟩
    | array => exact .inr ⟨_, .unexpected (.inr rfl)⟩
    | object members =>
      rcases members_cases members with
        hplain | ⟨huses, hlength⟩ | ⟨op, operand, rfl⟩ | ⟨key, operand, rfl, hkey, hunknown⟩
      · exact .inr ⟨_, .plainObject hplain⟩
      · exact .inr ⟨_, .sharedOperator huses hlength⟩
      · cases op with
        | all | any | not => exact .inr ⟨_, .combinator rfl⟩
        | present => exact present_accepts_or_refuses operand
        | oneOf => exact oneOf_accepts_or_refuses operand
        | contains =>
          cases hread : readPredicate operand with
          | ok p => exact .inl ⟨_, .contains hread⟩
          | error x => exact .inr ⟨_, .contains hread⟩
      · exact .inr ⟨_, .unknownOperator hkey hunknown⟩

theorem conditionLayer_eq_iff (v : Json) :
    (∀ c, conditionLayer readPredicate v = .ok c ↔ AcceptsCondition readPredicate v c) ∧
    ∀ x, conditionLayer readPredicate v = .error x ↔ RefusesCondition readPredicate v x :=
  outcome_iff (fun _ => conditionLayer_of_accepts) (fun _ => conditionLayer_of_refuses)
    (condition_accepts_or_refuses readPredicate v)

end OfJson

end ConfiguredPredicates
