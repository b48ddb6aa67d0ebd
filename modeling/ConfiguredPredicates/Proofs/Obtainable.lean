import ConfiguredPredicates.Predicate.Text
import ConfiguredPredicates.Proofs.Built
import ConfiguredPredicates.Proofs.Layers.Condition

/-!
Predicates from any mixture of reading and building. Parts that were read go into what is
built, and an expression may be taken out of a predicate to grow further. Reading keeps
what insertion keeps, so all of them are well-formed.
-/

namespace ConfiguredPredicates

mutual
/-- Whatever can be read or built, from parts that were read or built themselves. -/
inductive Predicate.Obtainable : Predicate → Prop
  | read {limit : Nat} {v : Json} {p : Predicate} : Predicate.ofJsonWithin limit v = .ok p →
      Predicate.Obtainable p
  | primitive (p : Primitive) : Predicate.Obtainable (.primitive p)
  | all {operands : List Predicate} : (∀ p ∈ operands, Predicate.Obtainable p) →
      Predicate.Obtainable (.all operands)
  | any {operands : List Predicate} : (∀ p ∈ operands, Predicate.Obtainable p) →
      Predicate.Obtainable (.any operands)
  | not {operand : Predicate} : Predicate.Obtainable operand →
      Predicate.Obtainable (.not operand)
  | expression {e : Expression} : Expression.Obtainable e → Predicate.Obtainable e.toPredicate

inductive Condition.Obtainable : Condition → Prop
  | read {limit : Nat} {v : Json} {c : Condition} : Condition.ofJsonWithin limit v = .ok c →
      Condition.Obtainable c
  | primitive (p : Primitive) : Condition.Obtainable (.primitive p)
  | present (expected : Bool) : Condition.Obtainable (.present expected)
  | oneOf (choices : List Primitive) : Condition.Obtainable (.oneOf choices)
  | contains {element : Predicate} : Predicate.Obtainable element →
      Condition.Obtainable (.contains element)

/-- Expressions may be taken out of predicates and grow further. -/
inductive Expression.Obtainable : Expression → Prop
  | empty : Expression.Obtainable .empty
  | ofPredicate {e : Expression} : Predicate.Obtainable e.toPredicate → Expression.Obtainable e
  | insert {e grown : Expression} {key : String} {condition : Condition}
      {replaced : Option Condition} : Expression.Obtainable e → Condition.Obtainable condition →
      e.insert key condition = .ok (replaced, grown) → Expression.Obtainable grown
end

namespace OfJson

variable {readPredicate : Json → Except Violation Predicate}
  {readCondition : Json → Except Violation Condition}

theorem wellFormed_of_forall₂ (hpredicate : ∀ v p, readPredicate v = .ok p → p.WellFormed)
    {values : List Json} {predicates : List Predicate}
    (h : List.Forall₂ (fun v p => readPredicate v = .ok p) values predicates) :
    ∀ p ∈ predicates, p.WellFormed := by
  induction h with
  | nil => simp
  | cons hhead _ ih => exact List.forall_mem_cons.2 ⟨hpredicate _ _ hhead, ih⟩

theorem plain_of_readsMember (hcondition : ∀ v c, readCondition v = .ok c → c.WellFormed)
    {members : List (String × Json)} {conditions : List (String × Condition)}
    (hplain : usesOperator members = false)
    (h : List.Forall₂ (ReadsMember readCondition) members conditions) :
    ∀ property ∈ conditions, isOperatorKey property.1 = false ∧ property.2.WellFormed := by
  rw [usesOperator_eq_false_iff] at hplain
  induction h with
  | nil => simp
  | cons hhead _ ih =>
    obtain ⟨hkey, hrest⟩ := List.forall_mem_cons.1 hplain
    exact List.forall_mem_cons.2 ⟨⟨hhead.1 ▸ hkey, hcondition _ _ hhead.2⟩, ih hrest⟩

theorem wellFormed_of_acceptsPredicate
    (hpredicate : ∀ v p, readPredicate v = .ok p → p.WellFormed)
    (hcondition : ∀ v c, readCondition v = .ok c → c.WellFormed) {v : Json} {p : Predicate}
    (h : AcceptsPredicate readPredicate readCondition v p) : p.WellFormed := by
  cases h with
  | primitive p => exact .primitive p
  | operands hjoin hall =>
    have hoperands := wellFormed_of_forall₂ hpredicate hall
    cases hjoin with
    | all => exact .all hoperands
    | any => exact .any hoperands
  | not hread => exact .not (hpredicate _ _ hread)
  | @expression members conditions hplain hall =>
    have hproperties := plain_of_readsMember hcondition hplain hall
    exact .expression (Entries.sorted_ofList conditions)
      (fun property hmem => (hproperties property (Entries.mem_of_mem_ofList hmem)).1)
      (fun property hmem => (hproperties property (Entries.mem_of_mem_ofList hmem)).2)

theorem wellFormed_of_acceptsCondition
    (hpredicate : ∀ v p, readPredicate v = .ok p → p.WellFormed) {v : Json} {c : Condition}
    (h : AcceptsCondition readPredicate v c) : c.WellFormed := by
  cases h with
  | primitive p => exact .primitive p
  | present expected => exact .present expected
  | oneOf choices => exact .oneOf choices
  | contains hread => exact .contains (hpredicate _ _ hread)

theorem wellFormed_of_within (limit levels : Nat) :
    (∀ v p, predicateWithin limit levels v = .ok p → p.WellFormed) ∧
      ∀ v c, conditionWithin limit levels v = .ok c → c.WellFormed := by
  induction levels with
  | zero => simp [predicateWithin, conditionWithin]
  | succ levels ih =>
    obtain ⟨hpredicate, hcondition⟩ := ih
    refine ⟨fun v p h => ?_, fun v c h => ?_⟩
    · rw [predicateWithin, (predicateLayer_eq_iff v).1] at h
      exact wellFormed_of_acceptsPredicate hpredicate hcondition h
    · rw [conditionWithin, (conditionLayer_eq_iff v).1] at h
      exact wellFormed_of_acceptsCondition hpredicate h

end OfJson

mutual
theorem Predicate.Obtainable.wellFormed : {p : Predicate} → p.Obtainable → p.WellFormed
  | _, .read h => (OfJson.wellFormed_of_within _ _).1 _ _ h
  | _, .primitive p => .primitive p
  | _, .all hoperands => .all fun p hp => (hoperands p hp).wellFormed
  | _, .any hoperands => .any fun p hp => (hoperands p hp).wellFormed
  | _, .not hoperand => .not hoperand.wellFormed
  | _, .expression he => he.wellFormed

theorem Condition.Obtainable.wellFormed : {c : Condition} → c.Obtainable → c.WellFormed
  | _, .read h => (OfJson.wellFormed_of_within _ _).2 _ _ h
  | _, .primitive p => .primitive p
  | _, .present expected => .present expected
  | _, .oneOf choices => .oneOf choices
  | _, .contains helement => .contains helement.wellFormed

theorem Expression.Obtainable.wellFormed :
    {e : Expression} → e.Obtainable → e.toPredicate.WellFormed
  | _, .empty => .expression .nil (by simp [Expression.empty]) (by simp [Expression.empty])
  | _, .ofPredicate hp => hp.wellFormed
  | _, .insert he hcondition hinsert =>
    Expression.wellFormed_insert he.wellFormed hcondition.wellFormed hinsert
end

theorem exists_of_readDocument {read : Json → Except Violation α} {text : String} {a : α}
    (h : readDocument read text = .ok a) : ∃ v, read v = .ok a := by
  obtain ⟨⟨v, _⟩, -, h⟩ := Json.Text.bind_eq_ok.1 h
  obtain ⟨_, hread, h⟩ := Json.Text.bind_eq_ok.1 h
  obtain ⟨_, -, hresult⟩ := Json.Text.bind_eq_ok.1 h
  cases hresult
  exact ⟨v, mapError_eq_ok_iff.1 hread⟩

theorem Predicate.obtainable_of_ofText {text : String} {p : Predicate}
    (h : Predicate.ofText text = .ok p) : p.Obtainable := by
  obtain ⟨v, hread⟩ := exists_of_readDocument h
  exact .read hread

theorem Condition.obtainable_of_ofText {text : String} {c : Condition}
    (h : Condition.ofText text = .ok c) : c.Obtainable := by
  obtain ⟨v, hread⟩ := exists_of_readDocument h
  exact .read hread

end ConfiguredPredicates
