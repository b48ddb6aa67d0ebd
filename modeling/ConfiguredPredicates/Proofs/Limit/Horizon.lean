import ConfiguredPredicates.Proofs.Layers.Related
import ConfiguredPredicates.Proofs.Positions

/-!
What lies behind the limit. Nodes one level behind it can be exchanged for any others, and
nothing is read differently. The readers of a layer are only asked at positions one level
further down, so calls inside each other are as many as there are levels, and one more where
the limit is noticed.
-/

namespace ConfiguredPredicates

/-- New nodes for some of the paths in a tree. -/
def Exchange : Type := List Segment → Option Json

def Exchange.behind (step : Segment) (new : Exchange) : Exchange := fun path => new (step :: path)

theorem Exchange.behind_eq_none {new : Exchange} (h : ∀ path, new path = none) (step : Segment) :
    ∀ path, new.behind step path = none :=
  fun path => h (step :: path)

namespace Json

mutual
/-- The tree with its nodes exchanged wherever a new one is given. -/
def replace (new : Exchange) : Json → Json
  | .array items => (new []).getD (.array (replaceItems new 0 items))
  | .object members => (new []).getD (.object (replaceMembers new members))
  | scalar => (new []).getD scalar

def replaceItems (new : Exchange) : (position : Nat) → List Json → List Json
  | _, [] => []
  | position, item :: rest =>
    replace (new.behind (.index position)) item :: replaceItems new (position + 1) rest

def replaceMembers (new : Exchange) : List (String × Json) → List (String × Json)
  | [] => []
  | (key, value) :: rest => (key, replace (new.behind (.key key)) value) :: replaceMembers new rest
end

mutual
theorem replace_of_none {new : Exchange} (h : ∀ path, new path = none) :
    (v : Json) → replace new v = v
  | .array items => by rw [replace, h [], replaceItems_of_none h 0 items, Option.getD_none]
  | .object members => by rw [replace, h [], replaceMembers_of_none h members, Option.getD_none]
  | .null | .bool _ | .number _ | .string _ => by simp [replace, h []]

theorem replaceItems_of_none {new : Exchange} (h : ∀ path, new path = none) (position : Nat) :
    (items : List Json) → replaceItems new position items = items
  | [] => rfl
  | item :: rest => by
    rw [replaceItems, replace_of_none (Exchange.behind_eq_none h _) item,
      replaceItems_of_none h (position + 1) rest]

theorem replaceMembers_of_none {new : Exchange} (h : ∀ path, new path = none) :
    (members : List (String × Json)) → replaceMembers new members = members
  | [] => rfl
  | (key, value) :: rest => by
    rw [replaceMembers, replace_of_none (Exchange.behind_eq_none h _) value,
      replaceMembers_of_none h rest]
end

section
variable {new : Exchange} (hhere : new [] = none)
include hhere

theorem replace_array (items : List Json) :
    (array items).replace new = .array (replaceItems new 0 items) := by
  rw [replace, hhere, Option.getD_none]

theorem replace_object (members : List (String × Json)) :
    (object members).replace new = .object (replaceMembers new members) := by
  rw [replace, hhere, Option.getD_none]

theorem replace_apply (op : Operator) (operand : Json) :
    (op.apply operand).replace new = op.apply (operand.replace (new.behind (.key op.key))) :=
  replace_object hhere [(op.key, operand)]

end

theorem usesOperator_replaceMembers (new : Exchange) (members : List (String × Json)) :
    OfJson.usesOperator (replaceMembers new members) = OfJson.usesOperator members := by
  induction members with
  | nil => rfl
  | cons member rest ih =>
    rw [OfJson.usesOperator, OfJson.usesOperator, replaceMembers, List.any_cons, List.any_cons]
    exact congrArg (isOperatorKey member.1 || ·) ih

end Json

namespace Role

def expectation : Role → Expectation
  | .predicate => .predicate
  | .condition => .condition

def layer : (role : Role) → (Json → Except Violation Predicate) →
    (Json → Except Violation Condition) → Json → Except Violation role.Result
  | .predicate, readPredicate, readCondition => OfJson.predicateLayer readPredicate readCondition
  | .condition, readPredicate, _ => OfJson.conditionLayer readPredicate

end Role

namespace Position

/-- A path from a position to a predicate or a condition at a depth. -/
def ReachesAt (start : Position) (depth : Nat) (path : List Segment) : Prop :=
  ∃ goal, Leads start path goal ∧ goal.depth = depth ∧ ∃ role : Role, goal.wanted = role.expectation

/-- An exchange that has new nodes for predicates and conditions at one depth only. -/
def ExchangesAt (start : Position) (depth : Nat) (new : Exchange) : Prop :=
  ∀ path node, new path = some node → start.ReachesAt depth path

namespace ExchangesAt

variable {start next : Position} {depth : Nat} {new : Exchange}

theorem eq_none (h : start.ExchangesAt depth new) {path : List Segment}
    (hpath : ¬ start.ReachesAt depth path) : new path = none :=
  Option.eq_none_iff_forall_ne_some.2 fun node hnode => hpath (h path node hnode)

theorem here (h : start.ExchangesAt depth new) (hdepth : start.depth < depth) : new [] = none := by
  refine h.eq_none ?_
  rintro ⟨goal, hleads, rfl, -⟩
  cases hleads
  exact Nat.lt_irrefl _ hdepth

theorem behind (h : start.ExchangesAt depth new) (hstart : start.node.Ordered) {step : Segment}
    (hstep : Step start step next) : next.ExchangesAt depth (new.behind step) := by
  intro path node hnode
  obtain ⟨goal, hleads, hgoal⟩ := h _ node hnode
  cases hleads with
  | step hstep' hrest =>
    obtain rfl := hstep.unique hstart hstep'
    exact ⟨goal, hrest, hgoal⟩

theorem replace_of_stuck (h : start.ExchangesAt depth new) (hdepth : start.depth < depth)
    (hstuck : ∀ step next, ¬ Step start step next) : start.node.replace new = start.node := by
  refine Json.replace_of_none (fun path => ?_) _
  cases path with
  | nil => exact h.here hdepth
  | cons step rest =>
    refine h.eq_none ?_
    rintro ⟨goal, hleads, -⟩
    cases hleads with
    | step hstep _ => exact hstuck _ _ hstep

end ExchangesAt

def IsLeaf (wanted : Expectation) : Prop :=
  wanted = .boolean ∨ wanted = .primitives ∨ wanted = .primitive

theorem not_isLeaf_expectation (role : Role) : ¬ IsLeaf role.expectation := by
  cases role <;> simp [IsLeaf, Role.expectation]

theorem Step.isLeaf {start next : Position} {step : Segment} (h : Step start step next)
    (hleaf : IsLeaf start.wanted) : IsLeaf next.wanted := by
  cases h with
  | property | operands | not | operand | present | oneOf | contains => simp [IsLeaf] at hleaf
  | choice => exact .inr (.inr rfl)

theorem not_reachesAt_of_leaf {start : Position} {depth : Nat} (hleaf : IsLeaf start.wanted)
    (path : List Segment) : ¬ start.ReachesAt depth path := by
  rintro ⟨goal, hleads, -, role, hrole⟩
  induction hleads with
  | here => exact not_isLeaf_expectation role (hrole ▸ hleaf)
  | step hstep _ ih => exact ih (hstep.isLeaf hleaf) hrole

theorem ExchangesAt.replace_of_leaf {start : Position} {depth : Nat} {new : Exchange}
    (h : start.ExchangesAt depth new) (hleaf : IsLeaf start.wanted) :
    start.node.replace new = start.node :=
  Json.replace_of_none (fun path => h.eq_none (not_reachesAt_of_leaf hleaf path)) start.node

end Position

namespace OfJson

section
variable {read read' : Json → Except Violation α}

theorem items_congr {values values' : List Json}
    (h : List.Forall₂ (fun v w => read v = read' w) values values') (position : Nat) :
    items read position values = items read' position values' := by
  induction h generalizing position with
  | nil => rfl
  | cons hfirst _ ih => rw [items, items, hfirst, ih (position + 1)]

theorem properties_congr {members members' : List (String × Json)}
    (h : List.Forall₂ (fun m n => m.1 = n.1 ∧ read m.2 = read' n.2) members members') :
    properties read members = properties read' members' := by
  induction h with
  | nil => rfl
  | cons hfirst _ ih =>
    obtain ⟨hkey, hread⟩ := hfirst
    rw [properties, properties, hkey, hread, ih]

theorem forall₂_replaceItems {new : Exchange} {values : List Json} (position : Nat)
    (h : ∀ index w, values[index]? = some w →
      read (w.replace (new.behind (.index (position + index)))) = read w) :
    List.Forall₂ (fun v w => read v = read w) (Json.replaceItems new position values) values := by
  induction values generalizing position with
  | nil => exact .nil
  | cons v rest ih =>
    refine .cons (h 0 v rfl) (ih (position + 1) fun index w hw => ?_)
    rw [Nat.add_assoc, Nat.add_comm 1]
    exact h (index + 1) w hw

theorem forall₂_replaceMembers {new : Exchange} {members : List (String × Json)}
    (h : ∀ member ∈ members,
      read (member.2.replace (new.behind (.key member.1))) = read member.2) :
    List.Forall₂ (fun m n => m.1 = n.1 ∧ read m.2 = read n.2)
      (Json.replaceMembers new members) members := by
  induction members with
  | nil => exact .nil
  | cons member rest ih =>
    obtain ⟨hfirst, hrest⟩ := List.forall_mem_cons.1 h
    exact .cons ⟨rfl, hfirst⟩ (ih hrest)

end

/-- A reader that gives one answer whatever stands at the depth below its node. -/
def Overlooks (wanted : Expectation) (start depth : Nat) (read : Json → Except Violation α) :
    Prop :=
  ∀ v new, v.Ordered → Position.ExchangesAt ⟨wanted, start, v⟩ depth new →
    read (v.replace new) = read v

variable {readPredicate : Json → Except Violation Predicate}
  {readCondition : Json → Except Violation Condition} {start depth : Nat}

theorem operands_overlooks (hdepth : start < depth)
    (hpredicate : Overlooks .predicate (start + 1) depth readPredicate) :
    Overlooks .predicates start depth (operands readPredicate) := by
  intro v new hv hnew
  cases v with
  | array values =>
    rw [Json.replace_array (hnew.here hdepth)]
    refine items_congr (forall₂_replaceItems 0 fun index w hw => ?_) 0
    rw [Nat.zero_add]
    exact hpredicate w _ (hv.of_item w (List.mem_of_getElem? hw)) (hnew.behind hv (.operand hw))
  | null | bool | number | string | object =>
    refine congrArg _ (hnew.replace_of_stuck hdepth fun step next hstep => ?_)
    cases hstep

theorem combination_overlooks (hdepth : start < depth)
    (hpredicate : Overlooks .predicate (start + 1) depth readPredicate) {op : Operator}
    {operand : Json} {new : Exchange} (hv : (op.apply operand).Ordered)
    (hnew : Position.ExchangesAt ⟨.predicate, start, op.apply operand⟩ depth new) :
    combination readPredicate op.key (operand.replace (new.behind (.key op.key))) =
      combination readPredicate op.key operand := by
  have hoperand := Operator.ordered_operand hv
  have hjoins : ∀ join, op.Joins join →
      combination readPredicate op.key (operand.replace (new.behind (.key op.key))) =
        combination readPredicate op.key operand := by
    intro join hjoin
    have hbehind := hnew.behind hv (.operands hjoin.key_eq)
    rw [combination_joins hjoin, combination_joins hjoin]
    exact congrArg _ (operands_overlooks hdepth hpredicate operand _ hoperand hbehind)
  cases op with
  | all => exact hjoins .all .all
  | any => exact hjoins .any .any
  | not =>
    have hread := hpredicate operand _ hoperand (hnew.behind hv (.not rfl))
    exact congrArg (Predicate.not <$> ·) hread
  | present | oneOf | contains => rfl

theorem requirement_overlooks
    (hpredicate : Overlooks .predicate (start + 1) depth readPredicate) {op : Operator}
    {operand : Json} {new : Exchange} (hv : (op.apply operand).Ordered)
    (hnew : Position.ExchangesAt ⟨.condition, start, op.apply operand⟩ depth new) :
    requirement readPredicate op.key (operand.replace (new.behind (.key op.key))) =
      requirement readPredicate op.key operand := by
  cases op with
  | present =>
    exact congrArg _ ((hnew.behind hv (.present rfl)).replace_of_leaf (.inl rfl))
  | oneOf =>
    exact congrArg _ ((hnew.behind hv (.oneOf rfl)).replace_of_leaf (.inr (.inl rfl)))
  | contains =>
    have hread := hpredicate operand _ (Operator.ordered_operand hv)
      (hnew.behind hv (.contains rfl))
    exact congrArg (Condition.contains <$> ·) hread
  | all | any | not => rfl

theorem predicateLayer_overlooks (hdepth : start < depth)
    (hpredicate : Overlooks .predicate (start + 1) depth readPredicate)
    (hcondition : Overlooks .condition (start + 1) depth readCondition) :
    Overlooks .predicate start depth (predicateLayer readPredicate readCondition) := by
  intro v new hv hnew
  have hhere := hnew.here hdepth
  cases v with
  | null | bool | number | string | array =>
    refine congrArg _ (hnew.replace_of_stuck hdepth fun step next hstep => ?_)
    cases hstep
  | object members =>
    rcases members_cases members with
      hplain | ⟨huses, hlength⟩ | ⟨op, operand, rfl⟩ | ⟨key, operand, rfl, hkey, hunknown⟩
    · have hreplaced := (Json.usesOperator_replaceMembers new members).trans hplain
      rw [Json.replace_object hhere, predicateLayer_plain hreplaced, predicateLayer_plain hplain,
        expression_eq_map, expression_eq_map]
      refine congrArg _ (properties_congr (forall₂_replaceMembers fun member hmember => ?_))
      have hkeys := usesOperator_eq_false_iff.1 hplain
      exact hcondition member.2 _ (hv.of_member member hmember)
        (hnew.behind hv (.property hkeys hmember))
    -- No step leads into an object with an operator beside other keys, so nothing in it changes.
    · refine congrArg _ (hnew.replace_of_stuck hdepth fun step next hstep => ?_)
      cases hstep with
      | property hplain _ => simp [usesOperator_eq_false_iff.2 hplain] at huses
      | operands | not => exact hlength rfl
    · change predicateLayer _ _ ((op.apply operand).replace new) =
        predicateLayer _ _ (op.apply operand)
      rw [Json.replace_apply hhere, predicateLayer_apply, predicateLayer_apply]
      exact congrArg _ (combination_overlooks hdepth hpredicate hv hnew)
    · rw [Json.replace_object hhere, Json.replaceMembers, Json.replaceMembers,
        predicateLayer_sole hkey, predicateLayer_sole hkey, combination, combination, hunknown]

theorem conditionLayer_overlooks (hdepth : start < depth)
    (hpredicate : Overlooks .predicate (start + 1) depth readPredicate) :
    Overlooks .condition start depth (conditionLayer readPredicate) := by
  intro v new hv hnew
  have hhere := hnew.here hdepth
  cases v with
  | null | bool | number | string | array =>
    refine congrArg _ (hnew.replace_of_stuck hdepth fun step next hstep => ?_)
    cases hstep
  | object members =>
    rcases members_cases members with
      hplain | ⟨huses, hlength⟩ | ⟨op, operand, rfl⟩ | ⟨key, operand, rfl, hkey, hunknown⟩
    · have hreplaced := (Json.usesOperator_replaceMembers new members).trans hplain
      rw [Json.replace_object hhere, conditionLayer_of_refuses (.plainObject hreplaced),
        conditionLayer_of_refuses (.plainObject hplain)]
    · refine congrArg _ (hnew.replace_of_stuck hdepth fun step next hstep => ?_)
      cases hstep with
      | present | oneOf | contains => exact hlength rfl
    · change conditionLayer _ ((op.apply operand).replace new) =
        conditionLayer _ (op.apply operand)
      rw [Json.replace_apply hhere, conditionLayer_apply, conditionLayer_apply]
      exact congrArg _ (requirement_overlooks hpredicate hv hnew)
    · rw [Json.replace_object hhere, Json.replaceMembers, Json.replaceMembers,
        conditionLayer_sole hkey, conditionLayer_sole hkey, requirement, requirement, hunknown]

theorem within_overlooks (limit levels : Nat) : ∀ start,
    Overlooks .predicate start (start + levels) (predicateWithin limit levels) ∧
      Overlooks .condition start (start + levels) (conditionWithin limit levels) := by
  -- One level down the start grows as the levels shrink, so the depth of the exchange stays.
  induction levels with
  | zero => exact fun start => ⟨fun v new _ _ => rfl, fun v new _ _ => rfl⟩
  | succ levels ih =>
    intro start
    obtain ⟨hpredicate, hcondition⟩ := ih (start + 1)
    have hdepth : start < start + (levels + 1) := by omega
    rw [Nat.add_right_comm] at hpredicate hcondition
    exact ⟨predicateLayer_overlooks hdepth hpredicate hcondition,
      conditionLayer_overlooks hdepth hpredicate⟩

theorem layerRelation_eq : LayerRelation fun outcome other => outcome = other where
  same _ := rfl
  map f _ _ h := congrArg (f <$> ·) h
  within step _ _ h := congrArg (Violation.within step) h

end OfJson

namespace Position

/-- The reader of one position calls that of another: the limit is not passed, and the other
is a predicate or a condition one level further down. -/
structure Calls (limit : Nat) (caller callee : Position) : Prop where
  withinLimit : caller.depth ≤ limit
  reaches : ∃ path, Leads caller path callee
  deeper : callee.depth = caller.depth + 1
  wanted : ∃ role : Role, callee.wanted = role.expectation

theorem length_le_of_isChain_calls {limit : Nat} {start : Position} {chain : List Position}
    (hstart : start.depth ≤ limit + 1) (h : List.IsChain (Calls limit) (start :: chain)) :
    start.depth + chain.length ≤ limit + 1 := by
  induction chain generalizing start with
  | nil => exact hstart
  | cons next rest ih =>
    obtain ⟨hcalls, hrest⟩ := List.isChain_cons_cons.1 h
    have hwithin := hcalls.withinLimit
    have hdeeper := hcalls.deeper
    have hlength := ih (by omega) hrest
    rw [List.length_cons]
    omega

/-- The given readers answer at a position as the reader within the limit does there. -/
def AnsweredBy (limit : Nat) (readPredicate : Json → Except Violation Predicate)
    (readCondition : Json → Except Violation Condition) (p : Position) : Prop :=
  (p.wanted = .predicate →
    readPredicate p.node = OfJson.predicateWithin limit (limit + 1 - p.depth) p.node) ∧
  (p.wanted = .condition →
    readCondition p.node = OfJson.conditionWithin limit (limit + 1 - p.depth) p.node)

end Position

namespace OfJson

open Position

theorem layer_of_answeredBy {limit depth : Nat} (hdepth : depth ≤ limit) (role : Role) (v : Json)
    (h : ∀ callee, Calls limit ⟨role.expectation, depth, v⟩ callee →
      callee.AnsweredBy limit readPredicate readCondition) :
    role.layer readPredicate readCondition v = role.within limit (limit + 1 - depth) v := by
  obtain ⟨levels, rfl⟩ : ∃ levels, limit = depth + levels := ⟨limit - depth, by omega⟩
  have hlevels : depth + levels + 1 - depth = levels + 1 := by omega
  have hbelow : depth + levels + 1 - (depth + 1) = levels := by omega
  have hpredicate : ∀ path w,
      Leads ⟨role.expectation, depth, v⟩ path ⟨.predicate, depth + 1, w⟩ →
        readPredicate w = predicateWithin (depth + levels) levels w := by
    intro path w hleads
    have hanswer := (h _ ⟨hdepth, ⟨path, hleads⟩, rfl, .predicate, rfl⟩).1 rfl
    rwa [hbelow] at hanswer
  have hcondition : ∀ path w,
      Leads ⟨role.expectation, depth, v⟩ path ⟨.condition, depth + 1, w⟩ →
        readCondition w = conditionWithin (depth + levels) levels w := by
    intro path w hleads
    have hanswer := (h _ ⟨hdepth, ⟨path, hleads⟩, rfl, .condition, rfl⟩).2 rfl
    rwa [hbelow] at hanswer
  -- A layer asks its readers about children only, and each of those is called.
  rw [hlevels]
  cases role with
  | predicate =>
    refine predicateLayer_related layerRelation_eq ?_ ?_ ?_
    · rintro operand rfl
      exact hpredicate _ operand (.step (.not rfl) (.here _))
    · rintro op join values hjoin rfl
      refine items_congr (List.forall₂_same.2 fun w hw => ?_) 0
      obtain ⟨index, hindex⟩ := List.mem_iff_getElem?.1 hw
      exact hpredicate _ w (.step (.operands hjoin.key_eq) (.step (.operand hindex) (.here _)))
    · rintro members rfl hplain
      refine properties_congr (List.forall₂_same.2 fun member hmember => ⟨rfl, ?_⟩)
      have hkeys := usesOperator_eq_false_iff.1 hplain
      exact hcondition _ member.2 (.step (.property hkeys hmember) (.here _))
  | condition =>
    refine conditionLayer_related layerRelation_eq ?_
    rintro operand rfl
    exact hpredicate _ operand (.step (.contains rfl) (.here _))

end OfJson

open Position in
/-- Whatever stands one level behind the limit, a tree is read in one way. Calls inside each
other are at most two more than the limit, and no answer but those to these calls matters. -/
theorem ofJsonWithin_replace (role : Role) (limit : Nat) {v : Json} (hv : v.Ordered) :
    (∀ new, ExchangesAt ⟨role.expectation, 0, v⟩ (limit + 1) new →
      role.ofJsonWithin limit (v.replace new) = role.ofJsonWithin limit v) ∧
    (∀ chain, List.IsChain (Calls limit) (⟨role.expectation, 0, v⟩ :: chain) →
      (⟨role.expectation, 0, v⟩ :: chain).length ≤ limit + 2) ∧
    ∀ depth ≤ limit, ∀ (below : Json) (reader : Role) readPredicate readCondition,
      (∀ callee, Calls limit ⟨reader.expectation, depth, below⟩ callee →
        callee.AnsweredBy limit readPredicate readCondition) →
      reader.layer readPredicate readCondition below =
        reader.within limit (limit + 1 - depth) below := by
  refine ⟨fun new hnew => ?_, fun chain hchain => ?_, ?_⟩
  · obtain ⟨hpredicate, hcondition⟩ := OfJson.within_overlooks limit (limit + 1) 0
    rw [Nat.zero_add] at hpredicate hcondition
    cases role with
    | predicate => exact hpredicate v new hv hnew
    | condition => exact hcondition v new hv hnew
  · have hlength := length_le_of_isChain_calls (Nat.zero_le (limit + 1)) hchain
    rw [Nat.zero_add] at hlength
    exact Nat.succ_le_succ hlength
  · exact fun depth hdepth below reader readPredicate readCondition =>
      OfJson.layer_of_answeredBy hdepth reader below

open Position in
theorem ofJsonWithin_replace_any :
    let a : Json := .object [("$contains", .object [("b", .null)])]
    let item : Json := .object [("a", a)]
    let v : Json := .object [("$any", .array [item, .string "x"])]
    let v' : Json := .object [("$any", .array [.object [("a", .array [])], .string "x"])]
    let path : List Segment := [.key "$any", .index 0, .key "a"]
    let new : Exchange := fun place => if place = path then some (.array []) else none
    let chain : List Position := [⟨.predicate, 0, v⟩, ⟨.predicate, 1, item⟩, ⟨.condition, 2, a⟩]
    let silent : Violation := .here .reservedKey
    v.Ordered ∧ ExchangesAt ⟨.predicate, 0, v⟩ 2 new ∧ v.replace new = v' ∧
      Predicate.ofJsonWithin 1 v' = Predicate.ofJsonWithin 1 v ∧
      Predicate.ofJsonWithin 1 v = .error ⟨⟨path⟩, .tooDeep 1⟩ ∧
      chain.IsChain (Calls 1) ∧ chain.length ≤ 3 ∧
      OfJson.predicateLayer (fun _ => .error silent) (fun _ => .error silent) (.string "x") =
        OfJson.predicateWithin 1 1 (.string "x") := by
  intro a item v v' path new chain silent
  have hv : v.Ordered := Json.ordered_canonical v
  have hplain : ∀ member ∈ [("a", a)], isOperatorKey member.1 = false :=
    List.forall_mem_singleton.2 (by decide)
  have hitem : Leads ⟨.predicate, 0, v⟩ [.key "$any", .index 0] ⟨.predicate, 1, item⟩ :=
    .step (.operands (.inr rfl)) (.step (.operand rfl) (.here _))
  have ha : Leads ⟨.predicate, 1, item⟩ [.key "a"] ⟨.condition, 2, a⟩ :=
    .step (.property hplain List.mem_cons_self) (.here _)
  have hnew : ExchangesAt ⟨.predicate, 0, v⟩ 2 new := by
    intro place node hnode
    have hplace : place = path := by
      by_contra hne
      simp [new, hne] at hnode
    subst hplace
    have hleads : Leads ⟨.predicate, 0, v⟩ path ⟨.condition, 2, a⟩ :=
      .step (.operands (.inr rfl)) (.step (.operand rfl) ha)
    exact ⟨_, hleads, rfl, .condition, rfl⟩
  have hchain : chain.IsChain (Calls 1) := by
    refine .cons_cons ⟨Nat.zero_le 1, ⟨_, hitem⟩, rfl, .predicate, rfl⟩ ?_
    exact .cons_cons ⟨Nat.le_refl 1, ⟨_, ha⟩, rfl, .condition, rfl⟩ (.singleton _)
  have hsilent : ∀ callee, ¬ Calls 1 ⟨.predicate, 1, .string "x"⟩ callee := by
    rintro callee ⟨-, ⟨path, hleads⟩, hdeeper, -⟩
    cases hleads with
    | here => cases hdeeper
    | step hstep _ => cases hstep
  obtain ⟨hreplace, hlength, hasked⟩ := ofJsonWithin_replace .predicate 1 hv
  have hreplaced : v.replace new = v' := by
    simp [v, item, a, v', new, path, Json.replace, Json.replaceItems, Json.replaceMembers,
      Exchange.behind]
  have htooDeep : Predicate.ofJsonWithin 1 v = .error ⟨⟨path⟩, .tooDeep 1⟩ := by cbv
  have hunasked := hasked 1 (Nat.le_refl 1) (.string "x") .predicate (fun _ => .error silent)
    (fun _ => .error silent) fun callee h => absurd h (hsilent callee)
  exact ⟨hv, hnew, hreplaced, hreplaced ▸ hreplace new hnew, htooDeep, hchain, hlength _ hchain,
    hunasked⟩

end ConfiguredPredicates
