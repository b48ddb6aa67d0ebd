import ConfiguredPredicates.Proofs.Layers.Condition

/-!
From a tree to a predicate and back. The conditions of an expression are entered
into a map by key when they are read, and once more when they are written; on a tree
whose objects have their keys in order neither changes anything. Main statement:
what was read gives the very tree that it was read from.
-/

namespace ConfiguredPredicates

namespace OfJson

variable {readPredicate : Json → Except Violation Predicate}
  {readCondition : Json → Except Violation Condition}

theorem listToJson_of_forall₂
    (hread : ∀ v p, v.Ordered → readPredicate v = .ok p → p.toJson = v)
    {values : List Json} {predicates : List Predicate}
    (hvalues : ∀ v ∈ values, v.Ordered)
    (h : List.Forall₂ (fun v p => readPredicate v = .ok p) values predicates) :
    Predicate.listToJson predicates = values := by
  induction h with
  | nil => rfl
  | cons hhead _ ih =>
    obtain ⟨hfirst, hrest⟩ := List.forall_mem_cons.1 hvalues
    rw [Predicate.listToJson, hread _ _ hfirst hhead, ih hrest]

theorem propertiesToJson_of_forall₂
    (hread : ∀ v c, v.Ordered → readCondition v = .ok c → c.toJson = v)
    {members : List (String × Json)} {conditions : List (String × Condition)}
    (hmembers : ∀ member ∈ members, member.2.Ordered)
    (h : List.Forall₂ (ReadsMember readCondition) members conditions) :
    Predicate.propertiesToJson conditions = members := by
  induction h with
  | nil => rfl
  | @cons member result _ _ hhead _ ih =>
    obtain ⟨key, value⟩ := member
    obtain ⟨_, condition⟩ := result
    obtain ⟨rfl, hvalue⟩ := hhead
    obtain ⟨hfirst, hrest⟩ := List.forall_mem_cons.1 hmembers
    rw [Predicate.propertiesToJson, hread _ _ hfirst hvalue, ih hrest]

theorem sorted_of_forall₂ {members : List (String × Json)} {results : List (String × α)}
    {read : Json → Except Violation α} (hsorted : Entries.Sorted members)
    (h : List.Forall₂ (ReadsMember read) members results) : Entries.Sorted results := by
  rw [Entries.sorted_iff_keys] at hsorted ⊢
  rwa [keys_of_forall₂ h]

theorem toJson_of_acceptsPredicate
    (hpredicate : ∀ v p, v.Ordered → readPredicate v = .ok p → p.toJson = v)
    (hcondition : ∀ v c, v.Ordered → readCondition v = .ok c → c.toJson = v)
    {v : Json} {p : Predicate} (hv : v.Ordered)
    (h : AcceptsPredicate readPredicate readCondition v p) : p.toJson = v := by
  cases h with
  | primitive p => rfl
  | operands hjoin hall =>
    have hvalues := (Operator.ordered_operand hv).of_item
    have hlist := listToJson_of_forall₂ hpredicate hvalues hall
    cases hjoin <;> rw [Predicate.toJson, hlist]
  | not hread => rw [Predicate.toJson, hpredicate _ _ (Operator.ordered_operand hv) hread]
  | expression _ hall =>
    -- Both entering by key and writing by key keep the order, since the keys are those of `v`.
    have hproperties := propertiesToJson_of_forall₂ hcondition hv.of_member hall
    rw [Predicate.toJson, Entries.ofList_of_sorted (sorted_of_forall₂ hv.sorted hall),
      hproperties, Entries.ofList_of_sorted hv.sorted]

theorem toJson_of_acceptsCondition
    (hpredicate : ∀ v p, v.Ordered → readPredicate v = .ok p → p.toJson = v)
    {v : Json} {c : Condition} (hv : v.Ordered) (h : AcceptsCondition readPredicate v c) :
    c.toJson = v := by
  cases h with
  | primitive p => rfl
  | present expected => rfl
  | oneOf choices => rfl
  | contains hread => rw [Condition.toJson, hpredicate _ _ (Operator.ordered_operand hv) hread]

theorem toJson_of_within (limit levels : Nat) :
    (∀ v p, v.Ordered → predicateWithin limit levels v = .ok p → p.toJson = v) ∧
      ∀ v c, v.Ordered → conditionWithin limit levels v = .ok c → c.toJson = v := by
  induction levels with
  | zero => simp [predicateWithin, conditionWithin]
  | succ levels ih =>
    obtain ⟨hpredicate, hcondition⟩ := ih
    refine ⟨fun v p hv h => ?_, fun v c hv h => ?_⟩
    · rw [predicateWithin, (predicateLayer_eq_iff v).1] at h
      exact toJson_of_acceptsPredicate hpredicate hcondition hv h
    · rw [conditionWithin, (conditionLayer_eq_iff v).1] at h
      exact toJson_of_acceptsCondition hpredicate hv h

end OfJson

/-- A tree that was read is written again as it was: keys, order, strings and numbers. -/
theorem toJson_of_ofJsonWithin (limit : Nat) {v : Json} (hv : v.Ordered) :
    (∀ p, Predicate.ofJsonWithin limit v = .ok p → p.toJson = v) ∧
      ∀ c, Condition.ofJsonWithin limit v = .ok c → c.toJson = v := by
  obtain ⟨hpredicate, hcondition⟩ := OfJson.toJson_of_within limit (limit + 1)
  exact ⟨fun p => hpredicate v p hv, fun c => hcondition v c hv⟩

theorem toJson_of_ofJsonWithin_nested :
    let v : Json := .object [("$any", .array [.object [("kind", .string "api"),
      ("spec.type", .object [("$in", .array [.string "a", .bool true])])], .object []])]
    let p : Predicate := .any [.expression [("kind", .primitive (.string "api")),
      ("spec.type", .oneOf [.string "a", .bool true])], .expression []]
    let w : Json := .object [("$contains", .object [("$not", .object [("kind",
      .object [("$exists", .bool false)])])])]
    let c : Condition := .contains (.not (.expression [("kind", .present false)]))
    (v.Ordered ∧ Predicate.ofJsonWithin 64 v = .ok p ∧ p.toJson = v) ∧
      w.Ordered ∧ Condition.ofJsonWithin 64 w = .ok c ∧ c.toJson = w := by
  intro v p w c
  have hv : v.Ordered := Json.ordered_canonical v
  have hw : w.Ordered := Json.ordered_canonical w
  have hp : Predicate.ofJsonWithin 64 v = .ok p := rfl
  have hc : Condition.ofJsonWithin 64 w = .ok c := rfl
  exact ⟨⟨hv, hp, (toJson_of_ofJsonWithin 64 hv).1 p hp⟩,
    hw, hc, (toJson_of_ofJsonWithin 64 hw).2 c hc⟩

end ConfiguredPredicates
