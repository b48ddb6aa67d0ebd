import ConfiguredPredicates.Proofs.Layers.Condition

/-!
The grammar of predicates and conditions over JSON trees, each with its depth and
without regard to how a tree is read. The depth counts the steps to the innermost
predicate or condition; the primitives to choose from take no step. Main statement:
what can be read within a limit is what the grammar has up to that depth.
-/

namespace ConfiguredPredicates

inductive IsPrimitive : Json → Prop
  | string (s : String) : IsPrimitive (.string s)
  | number (n : Number) : IsPrimitive (.number n)
  | bool (b : Bool) : IsPrimitive (.bool b)

mutual
/-- A tree that is a predicate of the given depth. -/
inductive IsPredicate : Nat → Json → Prop
  | primitive {v : Json} : IsPrimitive v → IsPredicate 0 v
  | operands {key : String} {n : Nat} {items : List Json} : key = "$all" ∨ key = "$any" →
      ArePredicates n items → IsPredicate n (.object [(key, .array items)])
  | not {n : Nat} {operand : Json} : IsPredicate n operand →
      IsPredicate (n + 1) (.object [("$not", operand)])
  | expression {n : Nat} {members : List (String × Json)} :
      (∀ member ∈ members, ∀ rest, member.1 ≠ "$" ++ rest) → AreConditions n members →
      IsPredicate n (.object members)

/-- Items that are predicates; zero without items, else one more than the largest depth. -/
inductive ArePredicates : Nat → List Json → Prop
  | nil : ArePredicates 0 []
  | cons {m n : Nat} {item : Json} {rest : List Json} : IsPredicate m item →
      ArePredicates n rest → ArePredicates (max (m + 1) n) (item :: rest)

inductive IsCondition : Nat → Json → Prop
  | primitive {v : Json} : IsPrimitive v → IsCondition 0 v
  | present (expected : Bool) : IsCondition 0 (.object [("$exists", .bool expected)])
  | oneOf {items : List Json} : (∀ item ∈ items, IsPrimitive item) →
      IsCondition 0 (.object [("$in", .array items)])
  | contains {n : Nat} {operand : Json} : IsPredicate n operand →
      IsCondition (n + 1) (.object [("$contains", operand)])

inductive AreConditions : Nat → List (String × Json) → Prop
  | nil : AreConditions 0 []
  | cons {m n : Nat} {key : String} {value : Json} {rest : List (String × Json)} :
      IsCondition m value → AreConditions n rest →
      AreConditions (max (m + 1) n) ((key, value) :: rest)
end

theorem isOperatorKey_eq_true_iff {key : String} :
    isOperatorKey key = true ↔ ∃ rest, key = "$" ++ rest := by
  constructor
  · intro h
    obtain ⟨rest, hrest⟩ : ∃ rest, key.toList = '$' :: rest := by
      have hhead : key.toList.head? = some '$' := by simpa [isOperatorKey, operatorMark] using h
      exact List.head?_eq_some_iff.1 hhead
    refine ⟨String.ofList rest, String.toList_inj.1 ?_⟩
    simp [hrest]
  · rintro ⟨rest, rfl⟩
    simp [isOperatorKey, operatorMark]

theorem isOperatorKey_eq_false_iff {key : String} :
    isOperatorKey key = false ↔ ∀ rest, key ≠ "$" ++ rest := by
  rw [← Bool.not_eq_true, isOperatorKey_eq_true_iff, not_exists]

theorem usesOperator_eq_false_iff_ne {members : List (String × Json)} :
    OfJson.usesOperator members = false ↔
      ∀ member ∈ members, ∀ rest, member.1 ≠ "$" ++ rest := by
  simp only [OfJson.usesOperator_eq_false_iff, isOperatorKey_eq_false_iff]

theorem isPrimitive_iff {v : Json} : IsPrimitive v ↔ ∃ p : Primitive, v = p.toJson := by
  constructor
  · rintro (s | n | b)
    · exact ⟨.string s, rfl⟩
    · exact ⟨.number n, rfl⟩
    · exact ⟨.bool b, rfl⟩
  · rintro ⟨s | n | b, rfl⟩
    · exact .string s
    · exact .number n
    · exact .bool b

theorem exists_arePredicates_iff {levels : Nat} {items : List Json} :
    (∃ n < levels + 1, ArePredicates n items) ↔
      ∀ item ∈ items, ∃ n < levels, IsPredicate n item := by
  induction items with
  | nil =>
    have hnil : ∃ n < levels + 1, ArePredicates n [] := ⟨0, Nat.succ_pos levels, .nil⟩
    simp only [hnil, List.not_mem_nil, false_implies, implies_true]
  | cons item rest ih =>
    rw [List.forall_mem_cons, ← ih]
    constructor
    · rintro ⟨_, hlt, hitems⟩
      cases hitems with
      | @cons m n _ _ hitem hrest => exact ⟨⟨m, by omega, hitem⟩, ⟨n, by omega, hrest⟩⟩
    · rintro ⟨⟨m, hm, hitem⟩, ⟨n, hn, hrest⟩⟩
      exact ⟨max (m + 1) n, by omega, .cons hitem hrest⟩

theorem exists_areConditions_iff {levels : Nat} {members : List (String × Json)} :
    (∃ n < levels + 1, AreConditions n members) ↔
      ∀ member ∈ members, ∃ n < levels, IsCondition n member.2 := by
  induction members with
  | nil =>
    have hnil : ∃ n < levels + 1, AreConditions n [] := ⟨0, Nat.succ_pos levels, .nil⟩
    simp only [hnil, List.not_mem_nil, false_implies, implies_true]
  | cons member rest ih =>
    obtain ⟨key, value⟩ := member
    rw [List.forall_mem_cons, ← ih]
    constructor
    · rintro ⟨_, hlt, hmembers⟩
      cases hmembers with
      | @cons m n _ _ _ hvalue hrest => exact ⟨⟨m, by omega, hvalue⟩, ⟨n, by omega, hrest⟩⟩
    · rintro ⟨⟨m, hm, hvalue⟩, ⟨n, hn, hrest⟩⟩
      exact ⟨max (m + 1) n, by omega, .cons hvalue hrest⟩

namespace OfJson

variable {readPredicate : Json → Except Violation Predicate}
  {readCondition : Json → Except Violation Condition} {levels : Nat}

theorem exists_acceptsPredicate_iff
    (hpredicate : ∀ v, (∃ p, readPredicate v = .ok p) ↔ ∃ n < levels, IsPredicate n v)
    (hcondition : ∀ v, (∃ c, readCondition v = .ok c) ↔ ∃ n < levels, IsCondition n v)
    (v : Json) :
    (∃ p, AcceptsPredicate readPredicate readCondition v p) ↔
      ∃ n < levels + 1, IsPredicate n v := by
  constructor
  · rintro ⟨p, h⟩
    cases h with
    | primitive p => exact ⟨0, Nat.succ_pos levels, .primitive (isPrimitive_iff.2 ⟨p, rfl⟩)⟩
    | operands hjoin hall =>
      obtain ⟨n, hn, hitems⟩ := exists_arePredicates_iff.2 fun v hv =>
        (hpredicate v).1 (exists_forall₂_iff.1 ⟨_, hall⟩ v hv)
      exact ⟨n, hn, .operands hjoin.key_eq hitems⟩
    | not hread =>
      obtain ⟨n, hn, hoperand⟩ := (hpredicate _).1 ⟨_, hread⟩
      exact ⟨n + 1, Nat.succ_lt_succ hn, .not hoperand⟩
    | expression hplain hall =>
      obtain ⟨n, hn, hmembers⟩ := exists_areConditions_iff.2 fun member hmember =>
        (hcondition member.2).1 (exists_readsMember_iff.1 ⟨_, hall⟩ member hmember)
      exact ⟨n, hn, .expression (usesOperator_eq_false_iff_ne.1 hplain) hmembers⟩
  · rintro ⟨n, hn, h⟩
    cases h with
    | primitive hprimitive =>
      obtain ⟨p, rfl⟩ := isPrimitive_iff.1 hprimitive
      exact ⟨_, .primitive p⟩
    | operands hkey hitems =>
      have hall := exists_arePredicates_iff.1 ⟨n, hn, hitems⟩
      obtain ⟨predicates, hread⟩ := exists_forall₂_iff.2 fun v hv =>
        (hpredicate v).2 (hall v hv)
      rcases hkey with rfl | rfl
      · exact ⟨_, .operands .all hread⟩
      · exact ⟨_, .operands .any hread⟩
    | @not n operand hoperand =>
      obtain ⟨p, hread⟩ := (hpredicate operand).2 ⟨n, Nat.lt_of_succ_lt_succ hn, hoperand⟩
      exact ⟨_, .not hread⟩
    | @expression _ members hplain hmembers =>
      have hall := exists_areConditions_iff.1 ⟨n, hn, hmembers⟩
      obtain ⟨conditions, hread⟩ := exists_readsMember_iff.2 fun member hmember =>
        (hcondition member.2).2 (hall member hmember)
      exact ⟨_, .expression (usesOperator_eq_false_iff_ne.2 hplain) hread⟩

theorem exists_acceptsCondition_iff
    (hpredicate : ∀ v, (∃ p, readPredicate v = .ok p) ↔ ∃ n < levels, IsPredicate n v)
    (v : Json) :
    (∃ c, AcceptsCondition readPredicate v c) ↔ ∃ n < levels + 1, IsCondition n v := by
  constructor
  · rintro ⟨c, h⟩
    cases h with
    | primitive p => exact ⟨0, Nat.succ_pos levels, .primitive (isPrimitive_iff.2 ⟨p, rfl⟩)⟩
    | present expected => exact ⟨0, Nat.succ_pos levels, .present expected⟩
    | oneOf choices =>
      refine ⟨0, Nat.succ_pos levels, .oneOf fun item hitem => ?_⟩
      obtain ⟨p, _, rfl⟩ := List.mem_map.1 hitem
      exact isPrimitive_iff.2 ⟨p, rfl⟩
    | contains hread =>
      obtain ⟨n, hn, hoperand⟩ := (hpredicate _).1 ⟨_, hread⟩
      exact ⟨n + 1, Nat.succ_lt_succ hn, .contains hoperand⟩
  · rintro ⟨n, hn, h⟩
    cases h with
    | primitive hprimitive =>
      obtain ⟨p, rfl⟩ := isPrimitive_iff.1 hprimitive
      exact ⟨_, .primitive p⟩
    | present expected => exact ⟨_, .present expected⟩
    | oneOf hitems =>
      obtain ⟨choices, hchoices⟩ := exists_forall₂_iff.2 fun v hv =>
        isPrimitive_iff.1 (hitems v hv)
      rw [← List.forall₂_map_right_iff, List.forall₂_eq_eq_eq] at hchoices
      subst hchoices
      exact ⟨_, .oneOf choices⟩
    | @contains n operand hoperand =>
      obtain ⟨p, hread⟩ := (hpredicate operand).2 ⟨n, Nat.lt_of_succ_lt_succ hn, hoperand⟩
      exact ⟨_, .contains hread⟩

theorem exists_within_iff (limit levels : Nat) :
    (∀ v, (∃ p, predicateWithin limit levels v = .ok p) ↔ ∃ n < levels, IsPredicate n v) ∧
      ∀ v, (∃ c, conditionWithin limit levels v = .ok c) ↔ ∃ n < levels, IsCondition n v := by
  -- Both at once: a layer of either kind reads children of both.
  induction levels with
  | zero => simp [predicateWithin, conditionWithin]
  | succ levels ih =>
    obtain ⟨hpredicate, hcondition⟩ := ih
    refine ⟨fun v => ?_, fun v => ?_⟩
    · simp only [predicateWithin, (predicateLayer_eq_iff v).1]
      exact exists_acceptsPredicate_iff hpredicate hcondition v
    · simp only [conditionWithin, (conditionLayer_eq_iff v).1]
      exact exists_acceptsCondition_iff hpredicate v

end OfJson

/-- Reading succeeds on the trees of the grammar that are no deeper than the limit. -/
theorem exists_ofJsonWithin_iff (limit : Nat) (v : Json) :
    ((∃ p, Predicate.ofJsonWithin limit v = .ok p) ↔ ∃ n ≤ limit, IsPredicate n v) ∧
      ((∃ c, Condition.ofJsonWithin limit v = .ok c) ↔ ∃ n ≤ limit, IsCondition n v) := by
  obtain ⟨hpredicate, hcondition⟩ := OfJson.exists_within_iff limit (limit + 1)
  simp only [Nat.lt_succ_iff] at hpredicate hcondition
  exact ⟨hpredicate v, hcondition v⟩

end ConfiguredPredicates
