import ConfiguredPredicates.Proofs.Layers.Condition

/-!
Two readings of one node. What relates the outcomes of the readers that a layer is given
also relates what the layer makes of them, if it is kept by all that a layer does to the
outcome of a child, and holds of an outcome and itself unless the limit was passed. The
first use is that a limit is only named: outcomes at equal levels differ in that number
and in nothing else.
-/

namespace ConfiguredPredicates

inductive Role where
  | predicate
  | condition
deriving DecidableEq, Repr

namespace Role

@[reducible] def Result : Role → Type
  | .predicate => Predicate
  | .condition => Condition

def within : (role : Role) → (limit levels : Nat) → Json → Except Violation role.Result
  | .predicate => OfJson.predicateWithin
  | .condition => OfJson.conditionWithin

def ofJsonWithin : (role : Role) → (limit : Nat) → Json → Except Violation role.Result
  | .predicate => Predicate.ofJsonWithin
  | .condition => Condition.ofJsonWithin

end Role

/-- The place where the limit was passed, if that is what is wrong. -/
def Violation.passedAt? : Violation → Option NodePath
  | ⟨path, .tooDeep _⟩ => some path
  | _ => none

def passedAt? : Except Violation α → Option NodePath
  | .ok _ => none
  | .error x => x.passedAt?

section
variable {outcome : Except Violation α}

theorem Violation.passedAt?_under (step : Segment) (x : Violation) :
    (x.under step).passedAt? = x.passedAt?.map (NodePath.under step) := by
  obtain ⟨path, cause⟩ := x
  cases cause <;> rfl

theorem passedAt?_eq_some_iff {path : NodePath} :
    passedAt? outcome = some path ↔ ∃ limit, outcome = .error ⟨path, .tooDeep limit⟩ := by
  constructor
  · intro h
    obtain ⟨_, cause⟩ | a := outcome
    · cases cause with
      | tooDeep limit => exact ⟨limit, by rw [← Option.some.inj h]⟩
      | _ => cases h
    · cases h
  · rintro ⟨limit, rfl⟩
    rfl

theorem passedAt?_map (f : α → β) : passedAt? (f <$> outcome) = passedAt? outcome := by
  cases outcome <;> rfl

theorem passedAt?_within (step : Segment) :
    passedAt? (Violation.within step outcome) = (passedAt? outcome).map (NodePath.under step) := by
  cases outcome with
  | ok a => rfl
  | error x => exact x.passedAt?_under step

end

namespace OfJson

theorem passedAt?_flag (operand : Json) : passedAt? (flag operand) = none := by
  cases operand <;> rfl

theorem passedAt?_primitive (v : Json) : passedAt? (primitive v) = none := by
  cases v <;> rfl

theorem exists_of_passedAt?_items {read : Json → Except Violation α} {values : List Json}
    {position : Nat} {path : NodePath} (h : passedAt? (items read position values) = some path) :
    ∃ v ∈ values, ∃ inner, passedAt? (read v) = some inner ∧
      ∃ index ≥ position, path = inner.under (.index index) := by
  obtain ⟨limit, h⟩ := passedAt?_eq_some_iff.1 h
  rcases forall_ok_or_firstFailure read values with hall | ⟨before, v, x, hfirst⟩
  · obtain ⟨results, hall⟩ := exists_forall₂_iff.2 hall
    rw [items_of_forall₂ hall] at h
    cases h
  · rw [items_of_firstFailure hfirst] at h
    obtain ⟨⟨after, rfl⟩, -, hfails⟩ := hfirst
    cases x
    cases h
    exact ⟨v, by simp, _, passedAt?_eq_some_iff.2 ⟨limit, hfails⟩, _, Nat.le_add_right _ _, rfl⟩

theorem exists_of_passedAt?_properties {read : Json → Except Violation α}
    {members : List (String × Json)} {path : NodePath}
    (h : passedAt? (properties read members) = some path) :
    ∃ member ∈ members, ∃ inner, passedAt? (read member.2) = some inner ∧
      path = inner.under (.key member.1) := by
  obtain ⟨limit, h⟩ := passedAt?_eq_some_iff.1 h
  rcases forall_ok_or_firstFailure (fun m => read m.2) members with
    hall | ⟨before, member, x, hfirst⟩
  · obtain ⟨results, hall⟩ := exists_readsMember_iff.2 hall
    rw [properties_of_forall₂ hall] at h
    cases h
  · rw [properties_of_firstFailure hfirst] at h
    obtain ⟨⟨after, rfl⟩, -, hfails⟩ := hfirst
    cases x
    cases h
    exact ⟨member, by simp, _, passedAt?_eq_some_iff.2 ⟨limit, hfails⟩, rfl⟩

theorem passedAt?_choices (operand : Json) : passedAt? (choices operand) = none := by
  cases operand with
  | array values =>
    refine Option.eq_none_iff_forall_ne_some.2 fun path h => ?_
    obtain ⟨v, -, inner, hinner, -⟩ := exists_of_passedAt?_items h
    rw [passedAt?_primitive] at hinner
    cases hinner
  | null | bool | number | string | object => rfl

/-- Relations of outcomes that are kept on the way from a child to its layer. -/
structure LayerRelation (R : ∀ {α : Type}, Except Violation α → Except Violation α → Prop) :
    Prop where
  same : ∀ {α : Type} {outcome : Except Violation α}, passedAt? outcome = none → R outcome outcome
  map : ∀ {α β : Type} (f : α → β) {a b : Except Violation α}, R a b → R (f <$> a) (f <$> b)
  within : ∀ {α : Type} (step : Segment) {a b : Except Violation α}, R a b →
    R (Violation.within step a) (Violation.within step b)

variable {R : ∀ {α : Type}, Except Violation α → Except Violation α → Prop}
  {readPredicate readPredicate' : Json → Except Violation Predicate}
  {readCondition readCondition' : Json → Except Violation Condition}

theorem operands_related (hR : LayerRelation @R) {operand : Json}
    (hitems : ∀ values, operand = .array values →
      R (items readPredicate 0 values) (items readPredicate' 0 values)) :
    R (operands readPredicate operand) (operands readPredicate' operand) := by
  cases operand with
  | array values => exact hitems values rfl
  | null | bool | number | string | object => exact hR.same rfl

theorem expression_eq_map (members : List (String × Json)) :
    expression readCondition members =
      (fun conditions => .expression (Entries.ofList conditions)) <$>
        properties readCondition members := rfl

/-- A layer only needs its readers at the operand of a negation, at the items of a list of
operands and at the properties of an object without operators. -/
theorem predicateLayer_related (hR : LayerRelation @R) {v : Json}
    (hnot : ∀ operand, v = Operator.not.apply operand →
      R (readPredicate operand) (readPredicate' operand))
    (hitems : ∀ op join values, Operator.Joins op join → v = op.apply (.array values) →
      R (items readPredicate 0 values) (items readPredicate' 0 values))
    (hproperties : ∀ members, v = .object members → usesOperator members = false →
      R (properties readCondition members) (properties readCondition' members)) :
    R (predicateLayer readPredicate readCondition v)
      (predicateLayer readPredicate' readCondition' v) := by
  cases v with
  | bool | number | string | null | array => exact hR.same rfl
  | object members =>
    rcases members_cases members with
      hplain | ⟨huses, hlength⟩ | ⟨op, operand, rfl⟩ | ⟨key, operand, rfl, hkey, hunknown⟩
    · rw [predicateLayer_plain hplain, predicateLayer_plain hplain, expression_eq_map,
        expression_eq_map]
      exact hR.map _ (hproperties members rfl hplain)
    · rw [predicateLayer_of_refuses (.sharedOperator huses hlength),
        predicateLayer_of_refuses (.sharedOperator huses hlength)]
      exact hR.same rfl
    -- Both combinators over lists read the same list, whatever they make of it.
    · have hjoins : ∀ join, op.Joins join →
          R (join <$> operands readPredicate operand)
            (join <$> operands readPredicate' operand) := by
        intro join hjoin
        refine hR.map join (operands_related hR fun values hvalues => ?_)
        exact hitems op join values hjoin (by rw [hvalues]; rfl)
      change R (predicateLayer _ _ (op.apply operand)) (predicateLayer _ _ (op.apply operand))
      rw [predicateLayer_apply, predicateLayer_apply]
      refine hR.within _ ?_
      cases op with
      | all => exact hjoins .all .all
      | any => exact hjoins .any .any
      | not => exact hR.map _ (hnot operand rfl)
      | present | oneOf | contains => exact hR.same rfl
    · rw [predicateLayer_of_refuses (.unknownOperator hkey hunknown),
        predicateLayer_of_refuses (.unknownOperator hkey hunknown)]
      exact hR.same rfl

theorem conditionLayer_related (hR : LayerRelation @R) {v : Json}
    (hcontains : ∀ operand, v = Operator.contains.apply operand →
      R (readPredicate operand) (readPredicate' operand)) :
    R (conditionLayer readPredicate v) (conditionLayer readPredicate' v) := by
  cases v with
  | bool | number | string | null | array => exact hR.same rfl
  | object members =>
    rcases members_cases members with
      hplain | ⟨huses, hlength⟩ | ⟨op, operand, rfl⟩ | ⟨key, operand, rfl, hkey, hunknown⟩
    · rw [conditionLayer_of_refuses (.plainObject hplain),
        conditionLayer_of_refuses (.plainObject hplain)]
      exact hR.same rfl
    · rw [conditionLayer_of_refuses (.sharedOperator huses hlength),
        conditionLayer_of_refuses (.sharedOperator huses hlength)]
      exact hR.same rfl
    · change R (conditionLayer _ (op.apply operand)) (conditionLayer _ (op.apply operand))
      rw [conditionLayer_apply, conditionLayer_apply]
      refine hR.within _ ?_
      cases op with
      | present => exact hR.map _ (hR.same (passedAt?_flag operand))
      | oneOf => exact hR.map _ (hR.same (passedAt?_choices operand))
      | contains => exact hR.map _ (hcontains operand rfl)
      | all | any | not => exact hR.same rfl
    · rw [conditionLayer_of_refuses (.unknownOperator hkey hunknown),
        conditionLayer_of_refuses (.unknownOperator hkey hunknown)]
      exact hR.same rfl

end OfJson

def Cause.naming (limit : Nat) : Cause → Cause
  | .tooDeep _ => .tooDeep limit
  | cause => cause

def Violation.naming (limit : Nat) (x : Violation) : Violation := ⟨x.path, x.cause.naming limit⟩

namespace OfJson

theorem layerRelation_naming (limit : Nat) :
    LayerRelation fun a b => b = a.mapError (Violation.naming limit) where
  same {α outcome} h := by
    cases outcome with
    | ok a => rfl
    | error x => obtain ⟨path, cause⟩ := x; cases cause <;> first | rfl | cases h
  map {α β} f {a b} h := by
    subst h
    cases a <;> rfl
  within {α} step {a b} h := by
    subst h
    cases a <;> rfl

theorem items_naming (limit : Nat) {read read' : Json → Except Violation α}
    (h : ∀ v, read' v = (read v).mapError (Violation.naming limit)) (position : Nat)
    (values : List Json) :
    items read' position values =
      (items read position values).mapError (Violation.naming limit) := by
  induction values generalizing position with
  | nil => rfl
  | cons v rest ih =>
    rw [items, items, h v, ih (position + 1)]
    cases read v with
    | error x => rfl
    | ok a => cases items read (position + 1) rest <;> rfl

theorem properties_naming (limit : Nat) {read read' : Json → Except Violation α}
    (h : ∀ v, read' v = (read v).mapError (Violation.naming limit))
    (members : List (String × Json)) :
    properties read' members = (properties read members).mapError (Violation.naming limit) := by
  induction members with
  | nil => rfl
  | cons member rest ih =>
    obtain ⟨key, v⟩ := member
    rw [properties, properties, h v, ih]
    cases read v with
    | error x => rfl
    | ok a => cases properties read rest <;> rfl

theorem within_naming (limit limit' levels : Nat) :
    (∀ v, predicateWithin limit levels v =
      (predicateWithin limit' levels v).mapError (Violation.naming limit)) ∧
    ∀ v, conditionWithin limit levels v =
      (conditionWithin limit' levels v).mapError (Violation.naming limit) := by
  induction levels with
  | zero => exact ⟨fun v => rfl, fun v => rfl⟩
  | succ levels ih =>
    obtain ⟨hpredicate, hcondition⟩ := ih
    have hR := layerRelation_naming limit
    refine ⟨fun v => ?_, fun v => ?_⟩
    · exact predicateLayer_related hR (fun operand _ => hpredicate operand)
        (fun _ _ values _ _ => items_naming limit hpredicate 0 values)
        (fun members _ _ => properties_naming limit hcondition members)
    · exact conditionLayer_related hR fun operand _ => hpredicate operand

end OfJson

end ConfiguredPredicates
