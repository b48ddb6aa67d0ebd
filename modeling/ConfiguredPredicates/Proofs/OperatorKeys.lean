import ConfiguredPredicates.Proofs.Grammar
import ConfiguredPredicates.Proofs.Obtainable
import ConfiguredPredicates.Proofs.Printed.Predicates

/-!
Operator keys stay out of what is read or built. No property of any expression inside has
one, since reading looks at all keys of an object before it makes an expression of it and
insertion refuses them one by one. In the tree that is written, an object with an operator
therefore comes from that operator and holds nothing else.
-/

namespace ConfiguredPredicates

inductive Json.Holds : Json → Json → Prop
  | here (v : Json) : Json.Holds v v
  | item {items : List Json} {item node : Json} : item ∈ items → Json.Holds item node →
      Json.Holds (.array items) node
  | member {members : List (String × Json)} {member : String × Json} {node : Json} :
      member ∈ members → Json.Holds member.2 node → Json.Holds (.object members) node

mutual
inductive Predicate.Holds (properties : List (String × Condition)) : Predicate → Prop
  | here : Predicate.Holds properties (.expression properties)
  | all {operands : List Predicate} {p : Predicate} : p ∈ operands →
      Predicate.Holds properties p → Predicate.Holds properties (.all operands)
  | any {operands : List Predicate} {p : Predicate} : p ∈ operands →
      Predicate.Holds properties p → Predicate.Holds properties (.any operands)
  | not {operand : Predicate} : Predicate.Holds properties operand →
      Predicate.Holds properties (.not operand)
  | property {outer : List (String × Condition)} {property : String × Condition} :
      property ∈ outer → Condition.Holds properties property.2 →
      Predicate.Holds properties (.expression outer)

inductive Condition.Holds (properties : List (String × Condition)) : Condition → Prop
  | contains {element : Predicate} : Predicate.Holds properties element →
      Condition.Holds properties (.contains element)
end

/-- The members of an object are plain, or one known operator is the only one. -/
def OperatorAlone (members : List (String × Json)) : Prop :=
  (∀ member ∈ members, ∀ rest, member.1 ≠ "$" ++ rest) ∨
    ∃ key ∈ ["$all", "$any", "$not", "$exists", "$in", "$contains"], ∃ operand,
      members = [(key, operand)]

mutual
theorem Predicate.WellFormed.plain_of_holds {properties : List (String × Condition)} :
    {p : Predicate} → p.WellFormed → p.Holds properties →
      ∀ property ∈ properties, isOperatorKey property.1 = false
  | _, .primitive _, h => nomatch h
  | _, .all hoperands, h => by
    cases h with
    | all hmem hinside => exact (hoperands _ hmem).plain_of_holds hinside
  | _, .any hoperands, h => by
    cases h with
    | any hmem hinside => exact (hoperands _ hmem).plain_of_holds hinside
  | _, .not hoperand, h => by
    cases h with
    | not hinside => exact hoperand.plain_of_holds hinside
  | _, .expression _ hplain hconditions, h => by
    cases h with
    | here => exact hplain
    | property hmem hinside => exact (hconditions _ hmem).plain_of_holds hinside

theorem Condition.WellFormed.plain_of_holds {properties : List (String × Condition)} :
    {c : Condition} → c.WellFormed → c.Holds properties →
      ∀ property ∈ properties, isOperatorKey property.1 = false
  | _, .primitive _, h => nomatch h
  | _, .present _, h => nomatch h
  | _, .oneOf _, h => nomatch h
  | _, .contains helement, h => by
    cases h with
    | contains hinside => exact helement.plain_of_holds hinside
end

section
variable {members : List (String × Json)}

theorem Primitive.not_holds_object (p : Primitive) : ¬ p.toJson.Holds (.object members) := by
  intro h
  cases p <;> cases h

theorem Json.exists_item_of_holds {items : List Json}
    (h : (Json.array items).Holds (.object members)) :
    ∃ item ∈ items, item.Holds (.object members) := by
  cases h with
  | item hmem hinside => exact ⟨_, hmem, hinside⟩

theorem Operator.operatorAlone_of_holds {op : Operator} {operand : Json}
    (h : (op.apply operand).Holds (.object members))
    (hoperand : operand.Holds (.object members) → OperatorAlone members) :
    OperatorAlone members := by
  cases h with
  | here => exact .inr ⟨op.key, by cases op <;> simp [Operator.key], operand, rfl⟩
  | member hmem hinside =>
    obtain rfl := List.mem_singleton.1 hmem
    exact hoperand hinside

theorem Predicate.operatorAlone_of_operands {op : Operator} {operands : List Predicate}
    (h : (op.apply (.array (listToJson operands))).Holds (.object members))
    (hoperands : ∀ p ∈ operands, p.toJson.Holds (.object members) → OperatorAlone members) :
    OperatorAlone members := by
  refine Operator.operatorAlone_of_holds h fun hlist => ?_
  obtain ⟨item, hitem, hinside⟩ := Json.exists_item_of_holds hlist
  rw [listToJson_eq_map] at hitem
  obtain ⟨p, hp, rfl⟩ := List.mem_map.1 hitem
  exact hoperands p hp hinside

theorem Predicate.operatorAlone_of_properties {properties : List (String × Condition)}
    (h : (Predicate.expression properties).toJson.Holds (.object members))
    (hplain : ∀ property ∈ properties, isOperatorKey property.1 = false)
    (hconditions : ∀ property ∈ properties, property.2.toJson.Holds (.object members) →
      OperatorAlone members) : OperatorAlone members := by
  rw [toJson] at h
  cases h with
  | here =>
    refine .inl fun member hmember => ?_
    obtain ⟨property, hproperty, rfl⟩ := exists_property_of_mem hmember
    exact isOperatorKey_eq_false_iff.1 (hplain property hproperty)
  | member hmem hinside =>
    obtain ⟨property, hproperty, rfl⟩ := exists_property_of_mem hmem
    exact hconditions property hproperty hinside

end

mutual
theorem Predicate.WellFormed.operatorAlone {members : List (String × Json)} :
    {p : Predicate} → p.WellFormed → p.toJson.Holds (.object members) → OperatorAlone members
  | _, .primitive p, h => absurd h p.not_holds_object
  | _, .all hoperands, h =>
    Predicate.operatorAlone_of_operands h fun p hp => (hoperands p hp).operatorAlone
  | _, .any hoperands, h =>
    Predicate.operatorAlone_of_operands h fun p hp => (hoperands p hp).operatorAlone
  | _, .not hoperand, h => Operator.operatorAlone_of_holds h hoperand.operatorAlone
  | _, .expression _ hplain hconditions, h =>
    Predicate.operatorAlone_of_properties h hplain
      fun property hproperty => (hconditions property hproperty).operatorAlone

theorem Condition.WellFormed.operatorAlone {members : List (String × Json)} :
    {c : Condition} → c.WellFormed → c.toJson.Holds (.object members) → OperatorAlone members
  | _, .primitive p, h => absurd h p.not_holds_object
  | _, .present _, h => Operator.operatorAlone_of_holds h fun hflag => nomatch hflag
  -- Choices are primitives, and no object stands inside one.
  | _, .oneOf choices, h => by
    refine Operator.operatorAlone_of_holds h fun hlist => ?_
    obtain ⟨item, hitem, hinside⟩ := Json.exists_item_of_holds hlist
    obtain ⟨p, -, rfl⟩ := List.mem_map.1 hitem
    exact absurd hinside p.not_holds_object
  | _, .contains helement, h => Operator.operatorAlone_of_holds h helement.operatorAlone
end

namespace Expression

/-- An expression after an attempt to insert, which leaves it as it was when refused. -/
def attempt (e : Expression) (call : String × Condition) : Expression :=
  match e.insert call.1 call.2 with
  | .ok (_, grown) => grown
  | .error _ => e

def attempts (e : Expression) (calls : List (String × Condition)) : Expression :=
  calls.foldl attempt e

theorem Obtainable.attempt {e : Expression} (he : e.Obtainable) {call : String × Condition}
    (hcall : call.2.Obtainable) : (e.attempt call).Obtainable := by
  rw [Expression.attempt]
  split
  · next replaced grown hinsert => exact .insert he hcall hinsert
  · exact he

theorem Obtainable.attempts {e : Expression} (he : e.Obtainable)
    {calls : List (String × Condition)} (hcalls : ∀ call ∈ calls, call.2.Obtainable) :
    (e.attempts calls).Obtainable := by
  induction calls generalizing e with
  | nil => exact he
  | cons call rest ih =>
    obtain ⟨hcall, hrest⟩ := List.forall_mem_cons.1 hcalls
    exact ih (he.attempt hcall) hrest

end Expression

/-- What is obtained by reading and building has no operator key as a property, at whatever
depth, and is written with every operator alone in its object. What is read from text is
obtained so too, and so is an expression after insertions that were refused or accepted. -/
theorem operatorAlone_of_obtainable :
    (∀ p : Predicate, p.Obtainable →
      (∀ properties, p.Holds properties →
        ∀ property ∈ properties, ∀ rest, property.1 ≠ "$" ++ rest) ∧
      ∀ members, p.toJson.Holds (.object members) → OperatorAlone members) ∧
    (∀ c : Condition, c.Obtainable →
      (∀ properties, c.Holds properties →
        ∀ property ∈ properties, ∀ rest, property.1 ≠ "$" ++ rest) ∧
      ∀ members, c.toJson.Holds (.object members) → OperatorAlone members) ∧
    (∀ text, (∀ p, Predicate.ofText text = .ok p → p.Obtainable) ∧
      ∀ c, Condition.ofText text = .ok c → c.Obtainable) ∧
    ∀ e : Expression, e.Obtainable → ∀ calls, (∀ call ∈ calls, call.2.Obtainable) →
      (e.attempts calls).Obtainable := by
  refine ⟨fun p hp => ⟨?_, ?_⟩, fun c hc => ⟨?_, ?_⟩, fun text => ⟨?_, ?_⟩, ?_⟩
  · intro properties hinside property hproperty
    exact isOperatorKey_eq_false_iff.1 (hp.wellFormed.plain_of_holds hinside property hproperty)
  · exact fun members => hp.wellFormed.operatorAlone
  · intro properties hinside property hproperty
    exact isOperatorKey_eq_false_iff.1 (hc.wellFormed.plain_of_holds hinside property hproperty)
  · exact fun members => hc.wellFormed.operatorAlone
  · exact fun p => Predicate.obtainable_of_ofText
  · exact fun c => Condition.obtainable_of_ofText
  · exact fun e he calls => he.attempts

theorem operatorAlone_of_obtainable_mixed :
    let v : Json := .object [("kind", .object [("$contains",
      .object [("spec.type", .string "service")])])]
    let inner : List (String × Condition) := [("spec.type", .primitive (.string "service"))]
    let read : Predicate := .expression [("kind", .contains (.expression inner))]
    let calls : List (String × Condition) := [("$in", .present true), ("owner", .contains read)]
    let p : Predicate := .not (.all [(Expression.empty.attempts calls).toPredicate, read])
    let members := [("$contains", Json.object [("spec.type", .string "service")])]
    let text := "\x7b\"$not\":true\x7d"
    Predicate.ofJsonWithin 64 v = .ok read ∧
      p = .not (.all [.expression [("owner", .contains read)], read]) ∧
      (p.Obtainable ∧ p.Holds inner ∧ (∀ property ∈ inner, ∀ rest, property.1 ≠ "$" ++ rest) ∧
        p.toJson.Holds (.object members) ∧ OperatorAlone members) ∧
      ((Condition.contains p).Obtainable ∧ (Condition.contains p).Holds inner ∧
        (Condition.contains p).toJson.Holds (.object members)) ∧
      Predicate.ofText text = .ok (.not (.primitive (.bool true))) ∧
      (Predicate.not (.primitive (.bool true))).Obtainable := by
  intro v inner read calls p members text
  obtain ⟨hpredicate, hcondition, htexts, hattempts⟩ := operatorAlone_of_obtainable
  have hv : Predicate.ofJsonWithin 64 v = .ok read := rfl
  have hread : read.Obtainable := .read hv
  have hcalls : ∀ call ∈ calls, call.2.Obtainable :=
    List.forall_mem_cons.2 ⟨.present true, List.forall_mem_singleton.2 (.contains hread)⟩
  have hgrown : (Expression.empty.attempts calls).Obtainable := hattempts _ .empty calls hcalls
  have hp : p.Obtainable := .not <| .all <|
    List.forall_mem_cons.2 ⟨.expression hgrown, List.forall_mem_singleton.2 hread⟩
  have hmem : ∀ a b : Predicate, b ∈ [a, b] := by simp
  have hinner : p.Holds inner :=
    .not (.all (hmem _ read) (.property List.mem_cons_self (.contains .here)))
  have hmembers : p.toJson.Holds (.object members) :=
    .member List.mem_cons_self <| .member List.mem_cons_self <|
      .item (List.mem_cons_of_mem _ List.mem_cons_self) (.member List.mem_cons_self (.here _))
  have hc : (Condition.contains p).Obtainable := .contains hp
  have hcmembers : (Operator.contains.apply p.toJson).Holds (.object members) :=
    .member List.mem_cons_self hmembers
  have htext : Predicate.ofText text = .ok (.not (.primitive (.bool true))) := by
    have hprinted : text = (Predicate.not (.primitive (.bool true))).render := by decide +kernel
    rw [hprinted, Predicate.ofText_render (.not (.primitive _)) (by decide)
      (by simp [Predicate.toJson, Operator.apply, Primitive.toJson])]
    rfl
  have hentries : ∀ c d : Condition,
      Expression.empty.attempts [("$in", c), ("owner", d)] = ⟨[("owner", d)]⟩ := by
    intro c d
    simp [Expression.attempts, Expression.attempt, Expression.insert, Expression.empty,
      Entries.insert, isOperatorKey, operatorMark]
  have hkept : p = .not (.all [.expression [("owner", .contains read)], read]) := by
    simp only [p, calls, hentries, Expression.toPredicate]
  obtain ⟨hkeys, halone⟩ := hpredicate p hp
  exact ⟨hv, hkept, ⟨hp, hinner, hkeys inner hinner, hmembers, halone members hmembers⟩,
    ⟨hc, .contains hinner, hcmembers⟩, htext, (htexts text).1 _ htext⟩

end ConfiguredPredicates
