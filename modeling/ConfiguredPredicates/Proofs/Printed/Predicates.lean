import ConfiguredPredicates.Proofs.Obtainable
import ConfiguredPredicates.Proofs.Printed.Values
import ConfiguredPredicates.Proofs.ReadBack

/-!
Predicates read from their own text. An operator with a list takes two levels of nesting
and one of depth, so the tree of a predicate nests at most twice as deep as the predicate,
and two levels more. Main statement: a predicate of standard depth is read from its text
as itself unless its tree nests deeper than texts may, which then is the fault.
-/

namespace ConfiguredPredicates

namespace Predicate

theorem listDepth_le_iff {operands : List Predicate} {n : Nat} :
    listDepth operands ≤ n ↔ ∀ p ∈ operands, p.depth + 1 ≤ n := by
  induction operands with
  | nil => simp [listDepth]
  | cons p rest ih => rw [listDepth, Nat.max_le, ih, List.forall_mem_cons]

theorem propertiesDepth_le_iff {properties : List (String × Condition)} {n : Nat} :
    propertiesDepth properties ≤ n ↔ ∀ property ∈ properties, property.2.depth + 1 ≤ n := by
  induction properties with
  | nil => simp [propertiesDepth]
  | cons property rest ih =>
    obtain ⟨key, c⟩ := property
    rw [propertiesDepth, Nat.max_le, ih, List.forall_mem_cons]

end Predicate

theorem Primitive.ordered_toJson (p : Primitive) : p.toJson.Ordered := by
  cases p <;> constructor

theorem Primitive.nesting_toJson (p : Primitive) : p.toJson.nesting = 0 := by
  cases p <;> rfl

theorem Operator.ordered_apply (op : Operator) {operand : Json} (h : operand.Ordered) :
    (op.apply operand).Ordered :=
  .object (List.pairwise_singleton _ _) (List.forall_mem_singleton.2 h)

theorem Predicate.ordered_listToJson {operands : List Predicate}
    (h : ∀ p ∈ operands, p.toJson.Ordered) : (Json.array (listToJson operands)).Ordered := by
  rw [listToJson_eq_map]
  exact .array (List.forall_mem_map.2 h)

theorem Predicate.ordered_propertiesToJson {properties : List (String × Condition)}
    (h : ∀ property ∈ properties, property.2.toJson.Ordered) :
    (Predicate.expression properties).toJson.Ordered := by
  rw [toJson, propertiesToJson_eq_map]
  exact Json.ordered_ofList (List.forall_mem_map.2 h)

theorem Predicate.nesting_listToJson {operands : List Predicate}
    (h : ∀ p ∈ operands, p.toJson.nesting ≤ 2 * p.depth + 2) :
    (Json.array (listToJson operands)).nesting ≤ 2 * listDepth operands + 1 := by
  have hdepth := listDepth_le_iff.1 (Nat.le_refl (listDepth operands))
  rw [Json.nesting, Nat.add_le_add_iff_right, Json.nestingItems_le_iff, listToJson_eq_map,
    List.forall_mem_map]
  intro p hp
  have hnesting := h p hp
  have hless := hdepth p hp
  omega

theorem Predicate.nesting_propertiesToJson {properties : List (String × Condition)}
    (h : ∀ property ∈ properties, property.2.toJson.nesting ≤ 2 * property.2.depth + 2) :
    (Predicate.expression properties).toJson.nesting ≤ 2 * propertiesDepth properties + 1 := by
  have hdepth := propertiesDepth_le_iff.1 (Nat.le_refl (propertiesDepth properties))
  rw [toJson, Json.nesting, Nat.add_le_add_iff_right, Json.nestingMembers_le_iff]
  intro member hmember
  obtain ⟨property, hproperty, rfl⟩ := exists_property_of_mem hmember
  have hnesting := h property hproperty
  have hless := hdepth property hproperty
  simp only
  omega

mutual
theorem Predicate.WellFormed.ordered_toJson : {p : Predicate} → p.WellFormed → p.toJson.Ordered
  | _, .primitive p => p.ordered_toJson
  | _, .all hoperands => Operator.all.ordered_apply <|
    Predicate.ordered_listToJson fun p hp => (hoperands p hp).ordered_toJson
  | _, .any hoperands => Operator.any.ordered_apply <|
    Predicate.ordered_listToJson fun p hp => (hoperands p hp).ordered_toJson
  | _, .not hoperand => Operator.not.ordered_apply hoperand.ordered_toJson
  | _, .expression _ _ hconditions => Predicate.ordered_propertiesToJson
    fun property hproperty => (hconditions property hproperty).ordered_toJson

theorem Condition.WellFormed.ordered_toJson : {c : Condition} → c.WellFormed → c.toJson.Ordered
  | _, .primitive p => p.ordered_toJson
  | _, .present expected => Operator.present.ordered_apply (.bool expected)
  | _, .oneOf choices => Operator.oneOf.ordered_apply <|
    .array (List.forall_mem_map.2 fun p _ => p.ordered_toJson)
  | _, .contains helement => Operator.contains.ordered_apply helement.ordered_toJson
end

-- A list takes both levels that a step down has; all else takes one of them.
mutual
theorem Predicate.WellFormed.nesting_le :
    {p : Predicate} → p.WellFormed → p.toJson.nesting ≤ 2 * p.depth + 2
  | _, .primitive p => by simp [Predicate.toJson, p.nesting_toJson]
  | _, .all hoperands => by
    have hlist := Predicate.nesting_listToJson fun p hp => (hoperands p hp).nesting_le
    rw [Predicate.toJson, Operator.nesting_apply, Predicate.depth]
    omega
  | _, .any hoperands => by
    have hlist := Predicate.nesting_listToJson fun p hp => (hoperands p hp).nesting_le
    rw [Predicate.toJson, Operator.nesting_apply, Predicate.depth]
    omega
  | _, .not hoperand => by
    have hnesting := hoperand.nesting_le
    rw [Predicate.toJson, Operator.nesting_apply, Predicate.depth]
    omega
  | _, .expression _ _ hconditions => by
    have hproperties := Predicate.nesting_propertiesToJson
      fun property hproperty => (hconditions property hproperty).nesting_le
    rw [Predicate.depth]
    omega

theorem Condition.WellFormed.nesting_le :
    {c : Condition} → c.WellFormed → c.toJson.nesting ≤ 2 * c.depth + 2
  | _, .primitive p => by simp [Condition.toJson, p.nesting_toJson]
  | _, .present expected => by simp [Condition.toJson, Operator.nesting_apply, Json.nesting]
  | _, .oneOf choices => by
    have hscalars : Json.nestingItems (choices.map Primitive.toJson) ≤ 0 :=
      Json.nestingItems_le_iff.2 (List.forall_mem_map.2 fun p _ => p.nesting_toJson.le)
    rw [Condition.toJson, Operator.nesting_apply, Json.nesting]
    omega
  | _, .contains helement => by
    have hnesting := helement.nesting_le
    rw [Condition.toJson, Operator.nesting_apply, Condition.depth]
    omega
end

open Json.Text

/-- The text of a predicate is read as the predicate, unless the tree nests too deep. -/
theorem Predicate.ofText_render {p : Predicate} (hp : p.WellFormed)
    (hdepth : p.depth ≤ standardDepth) (hwhole : p.toJson.WholeNumbers) :
    Predicate.ofText p.render =
      if p.toJson.nesting ≤ maxNesting then .ok p else .error (.fault .malformed) := by
  have htext : Json.Text.read p.render.toList =
      ifFits (p.toJson.nesting ≤ maxNesting) p.toJson [] := by
    rw [Predicate.render, Json.compact, String.toList_ofList]
    exact read_compactChars hp.ordered_toJson hwhole
  have hread : Predicate.ofJson p.toJson = .ok p := Predicate.ofJsonWithin_toJson hp hdepth
  rw [Predicate.ofText, readDocument, htext, ifFits]
  by_cases hfits : p.toJson.nesting ≤ maxNesting
  · simp [hfits, hread, Except.mapError, endOfText, skipBlanks, bind, Except.bind]
  · simp [hfits, Except.mapError, bind, Except.bind]

namespace Predicate

def nestedAll : Nat → Predicate
  | 0 => .all []
  | n + 1 => .all [nestedAll n]

theorem wellFormed_nestedAll (n : Nat) : (nestedAll n).WellFormed := by
  induction n with
  | zero => exact .all (by simp)
  | succ n ih => exact .all (List.forall_mem_singleton.2 ih)

theorem depth_nestedAll (n : Nat) : (nestedAll n).depth = n := by
  induction n with
  | zero => rfl
  | succ n ih => simp [nestedAll, depth, listDepth, ih]

theorem nesting_nestedAll (n : Nat) : (nestedAll n).toJson.nesting = 2 * n + 2 := by
  induction n with
  | zero => rfl
  | succ n ih =>
    simp only [nestedAll, toJson, listToJson, Operator.nesting_apply, Json.nesting,
      Json.nestingItems, ih]
    omega

theorem wholeNumbers_nestedAll (n : Nat) : (nestedAll n).toJson.WholeNumbers := by
  induction n with
  | zero => simp [nestedAll, toJson, listToJson, Operator.apply]
  | succ n ih => simpa [nestedAll, toJson, listToJson, Operator.apply] using ih

end Predicate

/-- Predicates of standard depth and their own texts: those of depth 62 are all read back,
some of those of depth 63 are not. -/
theorem ofText_render_of_obtainable :
    (∀ p : Predicate, p.Obtainable → p.depth ≤ standardDepth → p.toJson.WholeNumbers →
      p.toJson.nesting ≤ 2 * p.depth + 2 ∧
      (p.toJson.nesting ≤ 127 → Predicate.ofText p.render = .ok p) ∧
      (128 ≤ p.toJson.nesting → Predicate.ofText p.render = .error (.fault .malformed)) ∧
      (p.depth ≤ 62 → Predicate.ofText p.render = .ok p)) ∧
    ∃ v p, Predicate.ofJson v = .ok p ∧ p.toJson.WholeNumbers ∧
      Predicate.ofText p.render = .error (.fault .malformed) := by
  have hmax : maxNesting = 127 := rfl
  have hstandard : standardDepth = 64 := rfl
  constructor
  · intro p hp hdepth hwhole
    have hnesting := hp.wellFormed.nesting_le
    have hread := Predicate.ofText_render hp.wellFormed hdepth hwhole
    refine ⟨hnesting, fun hfits => ?_, fun hbeyond => ?_, fun hless => ?_⟩
    · rw [hread, if_pos (by omega)]
    · rw [hread, if_neg (by omega)]
    · rw [hread, if_pos (by omega)]
  · have hp := Predicate.wellFormed_nestedAll 63
    have hdepth : (Predicate.nestedAll 63).depth ≤ standardDepth := by
      rw [Predicate.depth_nestedAll]
      omega
    have hwhole := Predicate.wholeNumbers_nestedAll 63
    refine ⟨_, _, Predicate.ofJsonWithin_toJson hp hdepth, hwhole, ?_⟩
    rw [Predicate.ofText_render hp hdepth hwhole, Predicate.nesting_nestedAll, if_neg (by omega)]

theorem ofText_render_of_obtainable_escaped :
    let c : Condition := .oneOf [.string "\"\\", .number (.whole ⟨-3, by decide, by decide⟩)]
    let p : Predicate := .not (.expression [("line\n", c)])
    let q : Predicate := .nestedAll 63
    (p.Obtainable ∧ p.depth ≤ 62 ∧ p.toJson.WholeNumbers ∧ Predicate.ofText p.render = .ok p) ∧
      q.Obtainable ∧ q.depth ≤ standardDepth ∧ 128 ≤ q.toJson.nesting ∧
        Predicate.ofText q.render = .error (.fault .malformed) := by
  intro c p q
  obtain ⟨hread, -⟩ := ofText_render_of_obtainable
  have hinsert : Expression.empty.insert "line\n" c = .ok (none, ⟨[("line\n", c)]⟩) := rfl
  have hp : p.Obtainable := .not (.expression (.insert .empty (.oneOf _) hinsert))
  have hpdepth : p.depth ≤ 62 := by decide
  have hpwhole : p.toJson.WholeNumbers := by
    simp [p, c, Predicate.toJson, Predicate.propertiesToJson, Condition.toJson, Operator.apply,
      Entries.ofList, Entries.insert, Primitive.toJson]
  have hqdepth : q.depth ≤ standardDepth := by
    rw [Predicate.depth_nestedAll]
    decide
  have hqwhole := Predicate.wholeNumbers_nestedAll 63
  have hqnesting : 128 ≤ q.toJson.nesting := by rw [Predicate.nesting_nestedAll]
  have hq : q.Obtainable :=
    .read (Predicate.ofJsonWithin_toJson (Predicate.wellFormed_nestedAll 63) hqdepth)
  obtain ⟨-, -, -, hpread⟩ := hread p hp (hpdepth.trans (by decide)) hpwhole
  obtain ⟨-, -, hqread, -⟩ := hread q hq hqdepth hqwhole
  exact ⟨⟨hp, hpdepth, hpwhole, hpread hpdepth⟩, hq, hqdepth, hqnesting, hqread hqnesting⟩

end ConfiguredPredicates
