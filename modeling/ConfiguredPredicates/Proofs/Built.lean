import ConfiguredPredicates.Predicate.Violation

/-!
Predicates that are built and not read. The constructors know neither a limit nor a
check, and property expressions grow by insertion alone. What insertion keeps holds
at every depth of what is built: each property key once, in order, none of them an
operator key.
-/

namespace ConfiguredPredicates

mutual
inductive Predicate.Built : Predicate → Prop
  | primitive (p : Primitive) : Predicate.Built (.primitive p)
  | all {operands : List Predicate} : (∀ p ∈ operands, Predicate.Built p) →
      Predicate.Built (.all operands)
  | any {operands : List Predicate} : (∀ p ∈ operands, Predicate.Built p) →
      Predicate.Built (.any operands)
  | not {operand : Predicate} : Predicate.Built operand → Predicate.Built (.not operand)
  | expression {e : Expression} : Expression.Built e → Predicate.Built e.toPredicate

inductive Condition.Built : Condition → Prop
  | primitive (p : Primitive) : Condition.Built (.primitive p)
  | present (expected : Bool) : Condition.Built (.present expected)
  | oneOf (choices : List Primitive) : Condition.Built (.oneOf choices)
  | contains {element : Predicate} : Predicate.Built element → Condition.Built (.contains element)

/-- Expressions after any number of accepted insertions. -/
inductive Expression.Built : Expression → Prop
  | empty : Expression.Built .empty
  | insert {e grown : Expression} {key : String} {condition : Condition}
      {replaced : Option Condition} : Expression.Built e → Condition.Built condition →
      e.insert key condition = .ok (replaced, grown) → Expression.Built grown
end

mutual
/-- Every expression inside is a map of plain keys. -/
inductive Predicate.WellFormed : Predicate → Prop
  | primitive (p : Primitive) : Predicate.WellFormed (.primitive p)
  | all {operands : List Predicate} : (∀ p ∈ operands, Predicate.WellFormed p) →
      Predicate.WellFormed (.all operands)
  | any {operands : List Predicate} : (∀ p ∈ operands, Predicate.WellFormed p) →
      Predicate.WellFormed (.any operands)
  | not {operand : Predicate} : Predicate.WellFormed operand → Predicate.WellFormed (.not operand)
  | expression {properties : List (String × Condition)} : Entries.Sorted properties →
      (∀ property ∈ properties, isOperatorKey property.1 = false) →
      (∀ property ∈ properties, Condition.WellFormed property.2) →
      Predicate.WellFormed (.expression properties)

inductive Condition.WellFormed : Condition → Prop
  | primitive (p : Primitive) : Condition.WellFormed (.primitive p)
  | present (expected : Bool) : Condition.WellFormed (.present expected)
  | oneOf (choices : List Primitive) : Condition.WellFormed (.oneOf choices)
  | contains {element : Predicate} : Predicate.WellFormed element →
      Condition.WellFormed (.contains element)
end

theorem Expression.insert_eq_ok_iff {e grown : Expression} {key : String} {condition : Condition}
    {replaced : Option Condition} :
    e.insert key condition = .ok (replaced, grown) ↔
      isOperatorKey key = false ∧ replaced = e.get? key ∧
        grown = ⟨Entries.insert key condition e.properties⟩ := by
  cases hkey : isOperatorKey key with
  | true => simp [Expression.insert, hkey]
  | false => simp [Expression.insert, hkey, eq_comm]

theorem Expression.wellFormed_insert {e grown : Expression} {key : String} {condition : Condition}
    {replaced : Option Condition} (he : e.toPredicate.WellFormed)
    (hcondition : condition.WellFormed)
    (hinsert : e.insert key condition = .ok (replaced, grown)) :
    grown.toPredicate.WellFormed := by
  obtain ⟨hkey, -, rfl⟩ := Expression.insert_eq_ok_iff.1 hinsert
  cases he with
  | expression hsorted hplain hconditions =>
    refine .expression (Entries.sorted_insert key condition hsorted) ?_ ?_
    · intro property hproperty
      rcases Entries.mem_insert hproperty with rfl | hproperty
      · exact hkey
      · exact hplain property hproperty
    · intro property hproperty
      rcases Entries.mem_insert hproperty with rfl | hproperty
      · exact hcondition
      · exact hconditions property hproperty

mutual
theorem Predicate.Built.wellFormed : {p : Predicate} → p.Built → p.WellFormed
  | _, .primitive p => .primitive p
  | _, .all hoperands => .all fun p hp => (hoperands p hp).wellFormed
  | _, .any hoperands => .any fun p hp => (hoperands p hp).wellFormed
  | _, .not hoperand => .not hoperand.wellFormed
  | _, .expression he => he.wellFormed

theorem Condition.Built.wellFormed : {c : Condition} → c.Built → c.WellFormed
  | _, .primitive p => .primitive p
  | _, .present expected => .present expected
  | _, .oneOf choices => .oneOf choices
  | _, .contains helement => .contains helement.wellFormed

theorem Expression.Built.wellFormed : {e : Expression} → e.Built → e.toPredicate.WellFormed
  | _, .empty => .expression .nil (by simp [Expression.empty]) (by simp [Expression.empty])
  | _, .insert he hcondition hinsert =>
    Expression.wellFormed_insert he.wellFormed hcondition.wellFormed hinsert
end

end ConfiguredPredicates
