import ConfiguredPredicates.Proofs.Layers.Children

/-!
What one layer of reading makes of a node in the place of a predicate.
`AcceptsPredicate` holds of the nodes that are accepted with what is made of them,
`RefusesPredicate` of the nodes that are refused with the violation that is
reported; every node is one or the other. Children are left to the readers of the
layer, so whatever holds of `predicateWithin` follows by induction on the levels.
-/

namespace ConfiguredPredicates

/-- The operators that apply to a list of predicates, with what they make of it. -/
inductive Operator.Joins : Operator → (List Predicate → Predicate) → Prop
  | all : Joins .all .all
  | any : Joins .any .any

theorem Operator.Joins.key_eq {op : Operator} {join : List Predicate → Predicate}
    (h : op.Joins join) : op.key = "$all" ∨ op.key = "$any" := by
  cases h
  · exact .inl rfl
  · exact .inr rfl

namespace OfJson

section
variable (readPredicate : Json → Except Violation Predicate)
  (readCondition : Json → Except Violation Condition)

inductive AcceptsPredicate : Json → Predicate → Prop
  | primitive (p : Primitive) : AcceptsPredicate p.toJson (.primitive p)
  | operands {op : Operator} {join : List Predicate → Predicate} {values : List Json}
      {predicates : List Predicate} : op.Joins join →
      List.Forall₂ (fun v p => readPredicate v = .ok p) values predicates →
      AcceptsPredicate (op.apply (.array values)) (join predicates)
  | not {operand : Json} {p : Predicate} : readPredicate operand = .ok p →
      AcceptsPredicate (Operator.not.apply operand) (.not p)
  | expression {members : List (String × Json)} {conditions : List (String × Condition)} :
      usesOperator members = false →
      List.Forall₂ (ReadsMember readCondition) members conditions →
      AcceptsPredicate (.object members) (.expression (Entries.ofList conditions))

inductive RefusesPredicate : Json → Violation → Prop
  | unexpected {v : Json} : v.kind = .null ∨ v.kind = .array →
      RefusesPredicate v (.here (.unexpected .predicate v.kind))
  | sharedOperator {members : List (String × Json)} : usesOperator members = true →
      members.length ≠ 1 →
      RefusesPredicate (.object members) (.here (.sharedOperator (Entries.keys members)))
  | property {members before : List (String × Json)} {member : String × Json} {x : Violation} :
      usesOperator members = false →
      FirstFailure (fun m => readCondition m.2) members before member x →
      RefusesPredicate (.object members) (x.under (.key member.1))
  | operands {op : Operator} {join : List Predicate → Predicate} {operand : Json} :
      op.Joins join → operand.kind ≠ .array →
      RefusesPredicate (op.apply operand)
        (.under (.key op.key) (.here (.unexpected .predicates operand.kind)))
  | operand {op : Operator} {join : List Predicate → Predicate} {values before : List Json}
      {v : Json} {x : Violation} : op.Joins join →
      FirstFailure readPredicate values before v x →
      RefusesPredicate (op.apply (.array values))
        (.under (.key op.key) (x.under (.index before.length)))
  | not {operand : Json} {x : Violation} : readPredicate operand = .error x →
      RefusesPredicate (Operator.not.apply operand) (x.under (.key Operator.not.key))
  | conditionOperator {op : Operator} {operand : Json} : op.isCombinator = false →
      RefusesPredicate (op.apply operand) (.under (.key op.key) (.here (.conditionOperator op)))
  | unknownOperator {key : String} {operand : Json} : isOperatorKey key = true →
      Operator.ofKey? key = none →
      RefusesPredicate (.object [(key, operand)]) (.under (.key key) (.here (.unknownOperator key)))

end

variable {readPredicate : Json → Except Violation Predicate}
  {readCondition : Json → Except Violation Condition}

theorem predicateLayer_sole {key : String} (hkey : isOperatorKey key = true) (operand : Json) :
    predicateLayer readPredicate readCondition (.object [(key, operand)]) =
      Violation.within (.key key) (combination readPredicate key operand) := by
  simp [predicateLayer, Primitive.ofJson?, usesOperator, soleMember, hkey, bind, Except.bind]

theorem predicateLayer_apply (op : Operator) (operand : Json) :
    predicateLayer readPredicate readCondition (op.apply operand) =
      Violation.within (.key op.key) (combination readPredicate op.key operand) :=
  predicateLayer_sole op.isOperatorKey_key operand

theorem predicateLayer_plain {members : List (String × Json)}
    (hplain : usesOperator members = false) :
    predicateLayer readPredicate readCondition (.object members) =
      expression readCondition members := by
  simp [predicateLayer, Primitive.ofJson?, hplain]

theorem soleMember_of_length_ne {members : List (String × Json)} (h : members.length ≠ 1) :
    soleMember members = .error (.here (.sharedOperator (Entries.keys members))) := by
  match members, h with
  | [], _ => rfl
  | _ :: _ :: _, _ => rfl

theorem operands_of_not_array (read : Json → Except Violation α) {operand : Json}
    (h : operand.kind ≠ .array) :
    operands read operand = .error (.here (.unexpected .predicates operand.kind)) := by
  cases operand <;> first | rfl | exact absurd rfl h

theorem combination_joins {op : Operator} {join : List Predicate → Predicate}
    (hjoin : op.Joins join) (operand : Json) :
    combination readPredicate op.key operand = join <$> operands readPredicate operand := by
  cases hjoin <;> simp [combination]

theorem predicateLayer_of_accepts {v : Json} {p : Predicate}
    (h : AcceptsPredicate readPredicate readCondition v p) :
    predicateLayer readPredicate readCondition v = .ok p := by
  cases h with
  | primitive p => simp [predicateLayer]
  | operands hjoin hall =>
    rw [predicateLayer_apply, combination_joins hjoin, operands, items_of_forall₂ hall]
    rfl
  | not hread =>
    simp only [predicateLayer_apply, combination, Operator.ofKey?_key, hread]
    rfl
  | expression hplain hall =>
    rw [predicateLayer_plain hplain, expression, properties_of_forall₂ hall]
    rfl

theorem predicateLayer_of_refuses {v : Json} {x : Violation}
    (h : RefusesPredicate readPredicate readCondition v x) :
    predicateLayer readPredicate readCondition v = .error x := by
  cases h with
  | unexpected hkind =>
    rcases hkind with hkind | hkind
    · obtain rfl := Json.kind_eq_null_iff.1 hkind
      rfl
    · obtain ⟨values, rfl⟩ := Json.kind_eq_array_iff.1 hkind
      rfl
  | sharedOperator huses hlength =>
    simp [predicateLayer, Primitive.ofJson?, huses, soleMember_of_length_ne hlength, bind,
      Except.bind]
  | property hplain hfirst =>
    rw [predicateLayer_plain hplain, expression, properties_of_firstFailure hfirst]
    rfl
  | operands hjoin hkind =>
    rw [predicateLayer_apply, combination_joins hjoin, operands_of_not_array _ hkind]
    rfl
  | operand hjoin hfirst =>
    rw [predicateLayer_apply, combination_joins hjoin, operands, items_of_firstFailure hfirst,
      Nat.zero_add]
    rfl
  | not hread =>
    simp only [predicateLayer_apply, combination, Operator.ofKey?_key, hread]
    rfl
  | @conditionOperator op operand hop =>
    simp only [predicateLayer_apply, combination, Operator.ofKey?_key]
    cases op <;> first | rfl | cases hop
  | unknownOperator hkey hunknown =>
    simp only [predicateLayer_sole hkey, combination, hunknown]
    rfl

theorem members_cases (members : List (String × Json)) :
    usesOperator members = false ∨
      (usesOperator members = true ∧ members.length ≠ 1) ∨
      (∃ op : Operator, ∃ operand, members = [(op.key, operand)]) ∨
      ∃ key operand, members = [(key, operand)] ∧ isOperatorKey key = true ∧
        Operator.ofKey? key = none := by
  cases huses : usesOperator members with
  | false => exact .inl rfl
  | true =>
    match members, huses with
    | [], _ => exact .inr (.inl ⟨rfl, by simp⟩)
    | _ :: _ :: _, _ => exact .inr (.inl ⟨rfl, by simp⟩)
    | [(key, operand)], huses =>
      cases hop : Operator.ofKey? key with
      | none =>
        have hkey : isOperatorKey key = true := by simpa [usesOperator] using huses
        exact .inr (.inr (.inr ⟨key, operand, rfl, hkey, hop⟩))
      | some op =>
        obtain rfl := Operator.ofKey?_eq_some_iff.1 hop
        exact .inr (.inr (.inl ⟨op, operand, rfl⟩))

section
variable (readPredicate : Json → Except Violation Predicate)
  (readCondition : Json → Except Violation Condition)

theorem operands_accepts_or_refuses {op : Operator} {join : List Predicate → Predicate}
    (hjoin : op.Joins join) (operand : Json) :
    (∃ p, AcceptsPredicate readPredicate readCondition (op.apply operand) p) ∨
      ∃ x, RefusesPredicate readPredicate readCondition (op.apply operand) x := by
  by_cases hkind : operand.kind = .array
  · obtain ⟨values, rfl⟩ := Json.kind_eq_array_iff.1 hkind
    rcases forall_ok_or_firstFailure readPredicate values with hall | ⟨before, v, x, hfirst⟩
    · obtain ⟨predicates, hall⟩ := exists_forall₂_iff.2 hall
      exact .inl ⟨_, .operands hjoin hall⟩
    · exact .inr ⟨_, .operand hjoin hfirst⟩
  · exact .inr ⟨_, .operands hjoin hkind⟩

theorem plain_accepts_or_refuses {members : List (String × Json)}
    (hplain : usesOperator members = false) :
    (∃ p, AcceptsPredicate readPredicate readCondition (.object members) p) ∨
      ∃ x, RefusesPredicate readPredicate readCondition (.object members) x := by
  rcases forall_ok_or_firstFailure (fun m => readCondition m.2) members with
    hall | ⟨before, member, x, hfirst⟩
  · obtain ⟨conditions, hall⟩ := exists_readsMember_iff.2 hall
    exact .inl ⟨_, .expression hplain hall⟩
  · exact .inr ⟨_, .property hplain hfirst⟩

theorem predicate_accepts_or_refuses (v : Json) :
    (∃ p, AcceptsPredicate readPredicate readCondition v p) ∨
      ∃ x, RefusesPredicate readPredicate readCondition v x := by
  cases hprimitive : Primitive.ofJson? v with
  | some p =>
    obtain rfl := Primitive.toJson_of_ofJson? hprimitive
    exact .inl ⟨_, .primitive p⟩
  | none =>
    cases v with
    | bool | number | string => cases hprimitive
    | null => exact .inr ⟨_, .unexpected (.inl rfl)⟩
    | array => exact .inr ⟨_, .unexpected (.inr rfl)⟩
    | object members =>
      rcases members_cases members with
        hplain | ⟨huses, hlength⟩ | ⟨op, operand, rfl⟩ | ⟨key, operand, rfl, hkey, hunknown⟩
      · exact plain_accepts_or_refuses readPredicate readCondition hplain
      · exact .inr ⟨_, .sharedOperator huses hlength⟩
      · cases op with
        | all => exact operands_accepts_or_refuses readPredicate readCondition .all operand
        | any => exact operands_accepts_or_refuses readPredicate readCondition .any operand
        | not =>
          cases hread : readPredicate operand with
          | ok p => exact .inl ⟨_, .not hread⟩
          | error x => exact .inr ⟨_, .not hread⟩
        | present | oneOf | contains => exact .inr ⟨_, .conditionOperator rfl⟩
      · exact .inr ⟨_, .unknownOperator hkey hunknown⟩

end

theorem predicateLayer_eq_iff (v : Json) :
    (∀ p, predicateLayer readPredicate readCondition v = .ok p ↔
      AcceptsPredicate readPredicate readCondition v p) ∧
    ∀ x, predicateLayer readPredicate readCondition v = .error x ↔
      RefusesPredicate readPredicate readCondition v x :=
  outcome_iff (fun _ => predicateLayer_of_accepts) (fun _ => predicateLayer_of_refuses)
    (predicate_accepts_or_refuses readPredicate readCondition v)

end OfJson

end ConfiguredPredicates
