import ConfiguredPredicates.Proofs.Built
import ConfiguredPredicates.Proofs.Layers.Condition
import ConfiguredPredicates.Proofs.Places

/-!
From a predicate to its tree and back. Whatever was built is read again from its own
tree as itself when it is no deeper than the limit. A deeper one is refused for its
depth alone, at the first place that lies one step beyond the limit.
-/

namespace ConfiguredPredicates

namespace OfJson

def unlessTooDeep (limit : Nat) (found : Option NodePath) (a : α) : Except Violation α :=
  match found with
  | none => .ok a
  | some path => .error ⟨path, .tooDeep limit⟩

theorem within_unlessTooDeep (limit : Nat) (step : Segment) (found : Option NodePath) (a : α) :
    Violation.within step (unlessTooDeep limit found a) =
      unlessTooDeep limit (found.map (NodePath.under step)) a := by
  cases found <;> rfl

theorem map_unlessTooDeep (limit : Nat) (f : α → β) (found : Option NodePath) (a : α) :
    f <$> unlessTooDeep limit found a = unlessTooDeep limit found (f a) := by
  cases found <;> rfl

/-- Two readings in turn: what the second finds counts only if the first finds nothing. -/
theorem cons_unlessTooDeep (limit : Nat) (f : α → β) (found later : Option NodePath) (a : α)
    (rest : List β) :
    (do
      let first ← unlessTooDeep limit found a
      let others ← unlessTooDeep limit later rest
      .ok (f first :: others)) = unlessTooDeep limit (found.or later) (f a :: rest) := by
  cases found <;> cases later <;> rfl

variable {readPredicate : Json → Except Violation Predicate}
  {readCondition : Json → Except Violation Condition} {limit : Nat} {found : Option NodePath}

theorem predicateLayer_operands_unlessTooDeep {op : Operator} {join : List Predicate → Predicate}
    (hjoin : op.Joins join) {values : List Json} {operands : List Predicate}
    (hitems : items readPredicate 0 values = unlessTooDeep limit found operands) :
    predicateLayer readPredicate readCondition (op.apply (.array values)) =
      unlessTooDeep limit (found.map (NodePath.under (.key op.key))) (join operands) := by
  rw [predicateLayer_apply, combination_joins hjoin, OfJson.operands, hitems,
    map_unlessTooDeep, within_unlessTooDeep]

theorem predicateLayer_not_unlessTooDeep {v : Json} {operand : Predicate}
    (hread : readPredicate v = unlessTooDeep limit found operand) :
    predicateLayer readPredicate readCondition (Operator.not.apply v) =
      unlessTooDeep limit (found.map (NodePath.under (.key Operator.not.key))) (.not operand) := by
  rw [predicateLayer_apply, ← within_unlessTooDeep, ← map_unlessTooDeep, ← hread]
  simp only [combination, Operator.ofKey?_key]

theorem conditionLayer_contains_unlessTooDeep {v : Json} {element : Predicate}
    (hread : readPredicate v = unlessTooDeep limit found element) :
    conditionLayer readPredicate (Operator.contains.apply v) =
      unlessTooDeep limit (found.map (NodePath.under (.key Operator.contains.key)))
        (.contains element) := by
  rw [conditionLayer_apply, ← within_unlessTooDeep, ← map_unlessTooDeep, ← hread]
  simp only [requirement, Operator.ofKey?_key]

end OfJson

open OfJson Place

theorem Predicate.firstAt?_zero_places (p : Predicate) : firstAt? 0 p.places = some .root := by
  cases p <;> simp [Predicate.places]

theorem Condition.firstAt?_zero_places (c : Condition) : firstAt? 0 c.places = some .root := by
  cases c <;> simp [Condition.places]

theorem usesOperator_propertiesToJson {properties : List (String × Condition)}
    (hplain : ∀ property ∈ properties, isOperatorKey property.1 = false) :
    usesOperator (Predicate.propertiesToJson properties) = false := by
  rw [Predicate.propertiesToJson_eq_map, usesOperator_eq_false_iff, List.forall_mem_map]
  exact hplain

theorem sorted_propertiesToJson {properties : List (String × Condition)}
    (hsorted : Entries.Sorted properties) :
    Entries.Sorted (Predicate.propertiesToJson properties) := by
  rw [Predicate.propertiesToJson_eq_map, Entries.Sorted, List.pairwise_map]
  exact hsorted

-- The recursion is that of `toJson`. The levels that are left name the depth to look for, so a
-- step down takes one from both and only an operator with a list keeps the depth on its key.
mutual
theorem predicateWithin_toJson (limit levels : Nat) (p : Predicate) (hp : p.WellFormed) :
    predicateWithin limit levels p.toJson =
      unlessTooDeep limit (firstAt? levels p.places) p := by
  cases levels with
  | zero => rw [Predicate.firstAt?_zero_places]; rfl
  | succ levels =>
    rw [predicateWithin]
    cases hp with
    | primitive p =>
      rw [Predicate.toJson, predicateLayer_of_accepts (.primitive p), Predicate.places]
      rfl
    | @all operands hoperands =>
      have hitems := items_listToJson limit levels 0 operands hoperands
      rw [Predicate.toJson, predicateLayer_operands_unlessTooDeep .all hitems, Predicate.places,
        firstAt?_root_succ, firstAt?_map_under]
    | @any operands hoperands =>
      have hitems := items_listToJson limit levels 0 operands hoperands
      rw [Predicate.toJson, predicateLayer_operands_unlessTooDeep .any hitems, Predicate.places,
        firstAt?_root_succ, firstAt?_map_under]
    | @not operand hoperand =>
      have hread := predicateWithin_toJson limit levels operand hoperand
      rw [Predicate.toJson, predicateLayer_not_unlessTooDeep hread, Predicate.places,
        firstAt?_root_succ, firstAt?_map_below]
    | @expression properties hsorted hplain hconditions =>
      have hread := properties_propertiesToJson limit levels properties hconditions
      rw [Predicate.toJson, Entries.ofList_of_sorted (sorted_propertiesToJson hsorted),
        predicateLayer_plain (usesOperator_propertiesToJson hplain), OfJson.expression, hread,
        Predicate.places, firstAt?_root_succ]
      cases firstAt? (levels + 1) (Predicate.propertyPlaces properties) with
      | none => simp [unlessTooDeep, bind, Except.bind, Entries.ofList_of_sorted hsorted]
      | some path => rfl

theorem items_listToJson (limit levels position : Nat) (operands : List Predicate)
    (hoperands : ∀ p ∈ operands, p.WellFormed) :
    items (predicateWithin limit levels) position (Predicate.listToJson operands) =
      unlessTooDeep limit (firstAt? (levels + 1) (Predicate.operandPlaces position operands))
        operands := by
  cases operands with
  | nil => rfl
  | cons p rest =>
    have hfirst := predicateWithin_toJson limit levels p (hoperands p List.mem_cons_self)
    have hrest := items_listToJson limit levels (position + 1) rest
      fun q hq => hoperands q (List.mem_cons_of_mem p hq)
    rw [Predicate.listToJson, items, hfirst, hrest, Predicate.operandPlaces, firstAt?_append,
      firstAt?_map_below, within_unlessTooDeep]
    exact cons_unlessTooDeep limit id _ _ p rest

theorem properties_propertiesToJson (limit levels : Nat) (properties : List (String × Condition))
    (hproperties : ∀ property ∈ properties, property.2.WellFormed) :
    OfJson.properties (conditionWithin limit levels) (Predicate.propertiesToJson properties) =
      unlessTooDeep limit (firstAt? (levels + 1) (Predicate.propertyPlaces properties))
        properties := by
  cases properties with
  | nil => rfl
  | cons property rest =>
    obtain ⟨key, c⟩ := property
    have hfirst := conditionWithin_toJson limit levels c (hproperties (key, c) List.mem_cons_self)
    have hrest := properties_propertiesToJson limit levels rest
      fun other hother => hproperties other (List.mem_cons_of_mem _ hother)
    rw [Predicate.propertiesToJson, OfJson.properties, hfirst, hrest, Predicate.propertyPlaces,
      firstAt?_append, firstAt?_map_below, within_unlessTooDeep]
    exact cons_unlessTooDeep limit (Prod.mk key) _ _ c rest

theorem conditionWithin_toJson (limit levels : Nat) (c : Condition) (hc : c.WellFormed) :
    conditionWithin limit levels c.toJson =
      unlessTooDeep limit (firstAt? levels c.places) c := by
  cases levels with
  | zero => rw [Condition.firstAt?_zero_places]; rfl
  | succ levels =>
    rw [conditionWithin]
    cases hc with
    | primitive p => exact conditionLayer_of_accepts (.primitive p)
    | present expected => exact conditionLayer_of_accepts (.present expected)
    | oneOf choices => exact conditionLayer_of_accepts (.oneOf choices)
    | @contains element helement =>
      have hread := predicateWithin_toJson limit levels element helement
      rw [Condition.toJson, conditionLayer_contains_unlessTooDeep hread, Condition.places,
        firstAt?_root_succ, firstAt?_map_below]
end

section
variable {depth limit : Nat} {places : List Place} {a : α}

theorem unlessTooDeep_of_le (hsome : (firstAt? (limit + 1) places).isSome ↔ limit + 1 ≤ depth)
    (hdepth : depth ≤ limit) : unlessTooDeep limit (firstAt? (limit + 1) places) a = .ok a := by
  cases hfirst : firstAt? (limit + 1) places with
  | none => rfl
  | some path =>
    rw [hfirst] at hsome
    have := hsome.1 rfl
    omega

theorem unlessTooDeep_of_lt (hsome : (firstAt? (limit + 1) places).isSome ↔ limit + 1 ≤ depth)
    (hdepth : limit < depth) :
    ∃ path, firstAt? (limit + 1) places = some path ∧
      unlessTooDeep limit (firstAt? (limit + 1) places) a = .error ⟨path, .tooDeep limit⟩ := by
  obtain ⟨path, hpath⟩ := Option.isSome_iff_exists.1 (hsome.2 hdepth)
  exact ⟨path, hpath, by rw [hpath, unlessTooDeep]⟩

end

theorem Predicate.ofJsonWithin_toJson {p : Predicate} (hp : p.WellFormed) {limit : Nat}
    (hdepth : p.depth ≤ limit) : Predicate.ofJsonWithin limit p.toJson = .ok p := by
  rw [Predicate.ofJsonWithin, predicateWithin_toJson limit _ p hp]
  exact unlessTooDeep_of_le (p.isSome_firstAt?_places _) hdepth

theorem Condition.ofJsonWithin_toJson {c : Condition} (hc : c.WellFormed) {limit : Nat}
    (hdepth : c.depth ≤ limit) : Condition.ofJsonWithin limit c.toJson = .ok c := by
  rw [Condition.ofJsonWithin, conditionWithin_toJson limit _ c hc]
  exact unlessTooDeep_of_le (c.isSome_firstAt?_places _) hdepth

theorem Predicate.ofJsonWithin_toJson_of_lt {p : Predicate} (hp : p.WellFormed) {limit : Nat}
    (hdepth : limit < p.depth) :
    ∃ path, firstAt? (limit + 1) p.places = some path ∧
      Predicate.ofJsonWithin limit p.toJson = .error ⟨path, .tooDeep limit⟩ := by
  rw [Predicate.ofJsonWithin, predicateWithin_toJson limit _ p hp]
  exact unlessTooDeep_of_lt (p.isSome_firstAt?_places _) hdepth

theorem Condition.ofJsonWithin_toJson_of_lt {c : Condition} (hc : c.WellFormed) {limit : Nat}
    (hdepth : limit < c.depth) :
    ∃ path, firstAt? (limit + 1) c.places = some path ∧
      Condition.ofJsonWithin limit c.toJson = .error ⟨path, .tooDeep limit⟩ := by
  rw [Condition.ofJsonWithin, conditionWithin_toJson limit _ c hc]
  exact unlessTooDeep_of_lt (c.isSome_firstAt?_places _) hdepth

theorem Predicate.toJson_injective {p q : Predicate} (hp : p.WellFormed) (hq : q.WellFormed)
    (h : p.toJson = q.toJson) : p = q := by
  have hreadp := Predicate.ofJsonWithin_toJson hp (Nat.le_max_left p.depth q.depth)
  have hreadq := Predicate.ofJsonWithin_toJson hq (Nat.le_max_right p.depth q.depth)
  rw [h, hreadq] at hreadp
  exact (Except.ok.inj hreadp).symm

theorem Condition.toJson_injective {c d : Condition} (hc : c.WellFormed) (hd : d.WellFormed)
    (h : c.toJson = d.toJson) : c = d := by
  have hreadc := Condition.ofJsonWithin_toJson hc (Nat.le_max_left c.depth d.depth)
  have hreadd := Condition.ofJsonWithin_toJson hd (Nat.le_max_right c.depth d.depth)
  rw [h, hreadd] at hreadc
  exact (Except.ok.inj hreadc).symm

/-- Built predicates and conditions are read back as themselves exactly within the limit;
beyond it the first place one step too deep is reported. So trees tell them apart. -/
theorem ofJsonWithin_toJson_of_built :
    (∀ p : Predicate, p.Built → ∀ limit,
      (p.depth ≤ limit → Predicate.ofJsonWithin limit p.toJson = .ok p) ∧
      (limit < p.depth → ∃ path, firstAt? (limit + 1) p.places = some path ∧
        Predicate.ofJsonWithin limit p.toJson = .error ⟨path, .tooDeep limit⟩)) ∧
    (∀ c : Condition, c.Built → ∀ limit,
      (c.depth ≤ limit → Condition.ofJsonWithin limit c.toJson = .ok c) ∧
      (limit < c.depth → ∃ path, firstAt? (limit + 1) c.places = some path ∧
        Condition.ofJsonWithin limit c.toJson = .error ⟨path, .tooDeep limit⟩)) ∧
    (∀ p q : Predicate, p.Built → q.Built → p.toJson = q.toJson → p = q) ∧
    ∀ c d : Condition, c.Built → d.Built → c.toJson = d.toJson → c = d := by
  refine ⟨fun p hp limit => ⟨?_, ?_⟩, fun c hc limit => ⟨?_, ?_⟩, ?_, ?_⟩
  · exact Predicate.ofJsonWithin_toJson hp.wellFormed
  · exact Predicate.ofJsonWithin_toJson_of_lt hp.wellFormed
  · exact Condition.ofJsonWithin_toJson hc.wellFormed
  · exact Condition.ofJsonWithin_toJson_of_lt hc.wellFormed
  · exact fun p q hp hq => Predicate.toJson_injective hp.wellFormed hq.wellFormed
  · exact fun c d hc hd => Condition.toJson_injective hc.wellFormed hd.wellFormed

theorem ofJsonWithin_toJson_of_built_nested :
    let kind : Predicate := .expression [("kind", .primitive (.string "api"))]
    let p : Predicate := .all [.any [], kind, .not (.primitive (.bool true))]
    let c : Condition := .contains kind
    (p.Built ∧ p.depth = 2 ∧ Predicate.ofJsonWithin 2 p.toJson = .ok p ∧
      Place.firstAt? 2 p.places = some ⟨[.key "$all", .index 1, .key "kind"]⟩ ∧
      Predicate.ofJsonWithin 1 p.toJson =
        .error ⟨⟨[.key "$all", .index 1, .key "kind"]⟩, .tooDeep 1⟩) ∧
    (c.Built ∧ c.depth = 2 ∧ Condition.ofJsonWithin 2 c.toJson = .ok c ∧
      Condition.ofJsonWithin 1 c.toJson =
        .error ⟨⟨[.key "$contains", .key "kind"]⟩, .tooDeep 1⟩) := by
  intro kind p c
  have hinsert : Expression.empty.insert "kind" (.primitive (.string "api")) =
      .ok (none, ⟨[("kind", .primitive (.string "api"))]⟩) := rfl
  have hkind : kind.Built := .expression (.insert .empty (.primitive _) hinsert)
  have hp : p.Built := .all fun operand hoperand => by
    have hcases :
        operand = .any [] ∨ operand = kind ∨ operand = .not (.primitive (.bool true)) := by
      simpa [p] using hoperand
    rcases hcases with rfl | rfl | rfl
    · exact .any (by simp)
    · exact hkind
    · exact .not (.primitive _)
  have hc : c.Built := .contains hkind
  obtain ⟨hpredicate, hcondition, -, -⟩ := ofJsonWithin_toJson_of_built
  obtain ⟨path, hpath, hbeyond⟩ := (hpredicate p hp 1).2 (by decide)
  obtain ⟨path', hpath', hbeyond'⟩ := (hcondition c hc 1).2 (by decide)
  cases hpath
  cases hpath'
  exact ⟨⟨hp, by decide, (hpredicate p hp 2).1 (by decide), rfl, hbeyond⟩,
    hc, by decide, (hcondition c hc 2).1 (by decide), hbeyond'⟩

end ConfiguredPredicates
