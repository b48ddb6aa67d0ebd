import ConfiguredPredicates.Proofs.Breaks

/-!
The violation that reading reports. Its path leads to a node that is there, the
position of that node breaks the rule that its cause names, and nothing that is looked
at before it is wrong: no position on the way lies too deep, and the items and members
that stand before the way are all in the grammar within the limit.
-/

namespace ConfiguredPredicates

open OfJson Position

theorem two_le_length_of_usesOperator {members : List (String × Json)}
    (huses : usesOperator members = true) (hlength : members.length ≠ 1) :
    (∃ member ∈ members, isOperatorKey member.1 = true) ∧ 2 ≤ members.length := by
  have hmember := usesOperator_eq_true_iff.1 huses
  obtain ⟨member, hmem, hkey⟩ := hmember
  have hpos := List.length_pos_of_mem hmem
  exact ⟨⟨member, hmem, hkey⟩, by omega⟩

section
variable {limit depth : Nat} {readPredicate : Json → Except Violation Predicate}
  {readCondition : Json → Except Violation Condition}

theorem firstBreak_of_refusesPredicate (hdepth : depth ≤ limit)
    (hpredicate : ∀ w x, w.Ordered → readPredicate w = .error x →
      FirstBreak limit ⟨.predicate, depth + 1, w⟩ x)
    (hcondition : ∀ w x, w.Ordered → readCondition w = .error x →
      FirstBreak limit ⟨.condition, depth + 1, w⟩ x)
    (hpredicates : ∀ w, (∃ p, readPredicate w = .ok p) →
      ∃ n, IsPredicate n w ∧ depth + 1 + n ≤ limit)
    (hconditions : ∀ w, (∃ c, readCondition w = .ok c) →
      ∃ n, IsCondition n w ∧ depth + 1 + n ≤ limit)
    {v : Json} {x : Violation} (hv : v.Ordered)
    (h : RefusesPredicate readPredicate readCondition v x) :
    FirstBreak limit ⟨.predicate, depth, v⟩ x := by
  cases h with
  | unexpected hkind =>
    refine .of_here hv (.unexpected (.here _) hdepth ?_)
    rcases hkind with hkind | hkind <;> simp [Expectation.Allows, hkind]
  | sharedOperator huses hlength =>
    obtain ⟨hmember, htwo⟩ := two_le_length_of_usesOperator huses hlength
    exact .of_here hv (.sharedOperator (.inl rfl) (.here _) hdepth hmember htwo)
  | @property _ before member x hplain hfirst =>
    obtain ⟨⟨after, rfl⟩, hearlier, hfails⟩ := hfirst
    have hbelow := hcondition _ _ (hv.of_member member (by simp)) hfails
    exact hbelow.property hv hdepth (usesOperator_eq_false_iff.1 hplain)
      fun earlier hmem => hconditions _ (hearlier earlier hmem)
  | operands hjoin hkind =>
    refine .of_sole hdepth (.unexpected (.step (.operands hjoin.key_eq) (.here _)) hdepth ?_)
    exact hkind
  | @operand op _ _ before w x hjoin hfirst =>
    obtain ⟨⟨after, rfl⟩, hearlier, hfails⟩ := hfirst
    have hvalues := Operator.ordered_operand hv
    have hbelow := hpredicate _ _ (hvalues.of_item w (by simp)) hfails
    have hitems := hbelow.operand hvalues hdepth
      fun item hitem => hpredicates _ (hearlier item hitem)
    exact hitems.step hv (.operands hjoin.key_eq) hdepth (clear_sole ..)
  | not hread =>
    have hbelow := hpredicate _ _ (Operator.ordered_operand hv) hread
    exact hbelow.step hv (.not rfl) hdepth (clear_sole ..)
  | conditionOperator hop =>
    exact .of_sole hdepth (Breaks.conditionOperator (.here _) hdepth
      (Operator.isCombinator_eq_false_iff.1 hop))
  | unknownOperator hkey hunknown =>
    exact .of_sole hdepth (Breaks.unknownOperator (.inl rfl) (.here _) hdepth hkey
      (Operator.ofKey?_eq_none_iff.1 hunknown))

theorem primitive_eq_error {v : Json} {x : Violation} (h : OfJson.primitive v = .error x) :
    x = .here (.unexpected .primitive v.kind) ∧ ¬ Expectation.primitive.Allows v.kind := by
  cases v with
  | bool | number | string => cases h
  | null | array | object =>
    cases h
    exact ⟨rfl, by simp [Expectation.Allows, Json.kind]⟩

theorem firstBreak_of_refusesCondition (hdepth : depth ≤ limit)
    (hpredicate : ∀ w x, w.Ordered → readPredicate w = .error x →
      FirstBreak limit ⟨.predicate, depth + 1, w⟩ x)
    {v : Json} {x : Violation} (hv : v.Ordered) (h : RefusesCondition readPredicate v x) :
    FirstBreak limit ⟨.condition, depth, v⟩ x := by
  cases h with
  | unexpected hkind =>
    refine .of_here hv (.unexpected (.here _) hdepth ?_)
    rcases hkind with hkind | hkind <;> simp [Expectation.Allows, hkind]
  | plainObject hplain =>
    exact .of_here hv (.plainObject (.here _) hdepth (usesOperator_eq_false_iff.1 hplain))
  | sharedOperator huses hlength =>
    obtain ⟨hmember, htwo⟩ := two_le_length_of_usesOperator huses hlength
    exact .of_here hv (.sharedOperator (.inr rfl) (.here _) hdepth hmember htwo)
  | flag hkind =>
    refine .of_sole hdepth (.unexpected (.step (.present rfl) (.here _)) hdepth ?_)
    exact hkind
  | choices hkind =>
    refine .of_sole hdepth (.unexpected (.step (.oneOf rfl) (.here _)) hdepth ?_)
    exact hkind
  | @choice _ before w x hfirst =>
    obtain ⟨⟨after, rfl⟩, hearlier, hfails⟩ := hfirst
    obtain ⟨rfl, hkind⟩ := primitive_eq_error hfails
    have hvalues := Operator.ordered_operand hv
    have hbelow : FirstBreak limit ⟨.primitive, depth, w⟩ (.here (.unexpected .primitive w.kind)) :=
      .of_here (hvalues.of_item w (by simp)) (.unexpected (.here _) hdepth hkind)
    have hitems := hbelow.choice hvalues hdepth fun item hitem => by
      obtain ⟨p, hp⟩ := hearlier item hitem
      exact isPrimitive_iff.2 ⟨p, primitive_eq_ok_iff.1 hp⟩
    exact hitems.step hv (.oneOf rfl) hdepth (clear_sole ..)
  | contains hread =>
    have hbelow := hpredicate _ _ (Operator.ordered_operand hv) hread
    exact hbelow.step hv (.contains rfl) hdepth (clear_sole ..)
  | combinator hop =>
    exact .of_sole hdepth (Breaks.combinator (.here _) hdepth
      (Operator.isCombinator_eq_true_iff.1 hop))
  | unknownOperator hkey hunknown =>
    exact .of_sole hdepth (Breaks.unknownOperator (.inr rfl) (.here _) hdepth hkey
      (Operator.ofKey?_eq_none_iff.1 hunknown))

end

theorem firstBreak_of_within (limit levels : Nat) : ∀ depth, levels + depth = limit + 1 →
    (∀ v x, v.Ordered → predicateWithin limit levels v = .error x →
      FirstBreak limit ⟨.predicate, depth, v⟩ x) ∧
    ∀ v x, v.Ordered → conditionWithin limit levels v = .error x →
      FirstBreak limit ⟨.condition, depth, v⟩ x := by
  -- What a level loses the depth gains, so the levels run out just beyond the limit.
  induction levels with
  | zero =>
    intro depth hdepth
    obtain rfl : depth = limit + 1 := by omega
    refine ⟨fun v x hv h => ?_, fun v x hv h => ?_⟩
    · cases h
      exact .of_here hv (.tooDeep (.inl rfl) (.here _))
    · cases h
      exact .of_here hv (.tooDeep (.inr rfl) (.here _))
  | succ levels ih =>
    intro depth hdepth
    obtain ⟨hpredicate, hcondition⟩ := ih (depth + 1) (by omega)
    obtain ⟨hpredicates, hconditions⟩ := exists_within_iff limit levels
    refine ⟨fun v x hv h => ?_, fun v x hv h => ?_⟩
    · rw [predicateWithin, (predicateLayer_eq_iff v).2] at h
      refine firstBreak_of_refusesPredicate (by omega) hpredicate hcondition ?_ ?_ hv h
      · intro w hw
        obtain ⟨n, hn, hgrammar⟩ := (hpredicates w).1 hw
        exact ⟨n, hgrammar, by omega⟩
      · intro w hw
        obtain ⟨n, hn, hgrammar⟩ := (hconditions w).1 hw
        exact ⟨n, hgrammar, by omega⟩
    · rw [conditionWithin, (conditionLayer_eq_iff v).2] at h
      exact firstBreak_of_refusesCondition (by omega) hpredicate hv h

/-- A violation that is reported is there, breaks its rule, and is the first. -/
theorem firstBreak_of_ofJsonWithin_eq_error (limit : Nat) {v : Json} (hv : v.Ordered)
    (x : Violation) :
    (Predicate.ofJsonWithin limit v = .error x → FirstBreak limit ⟨.predicate, 0, v⟩ x) ∧
      (Condition.ofJsonWithin limit v = .error x → FirstBreak limit ⟨.condition, 0, v⟩ x) := by
  obtain ⟨hpredicate, hcondition⟩ := firstBreak_of_within limit (limit + 1) 0 rfl
  exact ⟨hpredicate v x hv, hcondition v x hv⟩

theorem firstBreak_of_ofJsonWithin_eq_error_nested :
    let v : Json := .object [("$any", .array [.object [("a", .string "x"),
      ("kind", .object [("$in", .array [.string "p", .null])])], .null])]
    let x : Violation := ⟨⟨[.key "$any", .index 0, .key "kind", .key "$in", .index 1]⟩,
      .unexpected .primitive .null⟩
    let w : Json := .object [("$contains", .object [("spec", .object [("type", .string "x")])])]
    let y : Violation := ⟨⟨[.key "$contains", .key "spec"]⟩, .plainObject⟩
    (v.Ordered ∧ Predicate.ofJsonWithin 64 v = .error x ∧ FirstBreak 64 ⟨.predicate, 0, v⟩ x) ∧
      w.Ordered ∧ Condition.ofJsonWithin 64 w = .error y ∧ FirstBreak 64 ⟨.condition, 0, w⟩ y := by
  intro v x w y
  have hv : v.Ordered := Json.ordered_canonical v
  have hw : w.Ordered := Json.ordered_canonical w
  have hx : Predicate.ofJsonWithin 64 v = .error x := rfl
  have hy : Condition.ofJsonWithin 64 w = .error y := rfl
  exact ⟨⟨hv, hx, (firstBreak_of_ofJsonWithin_eq_error 64 hv x).1 hx⟩,
    hw, hy, (firstBreak_of_ofJsonWithin_eq_error 64 hw y).2 hy⟩

end ConfiguredPredicates
