import ConfiguredPredicates.Predicate.Violation

/-!
The predicates and conditions inside a predicate, by place and depth. They are
listed in the order of the tree: a node before what is inside it, operands by index
and conditions by key. The depths that occur are those up to the depth of the whole,
so a predicate that is too deep for a limit has a first place just beyond it.
-/

namespace ConfiguredPredicates

structure Place where
  path : NodePath
  depth : Nat
deriving DecidableEq, Repr

namespace Place

def root : Place := ⟨.root, 0⟩

def under (step : Segment) (place : Place) : Place := ⟨place.path.under step, place.depth⟩

def below (step : Segment) (place : Place) : Place := ⟨place.path.under step, place.depth + 1⟩

/-- The path of the first place of a depth. -/
def firstAt? (depth : Nat) (places : List Place) : Option NodePath :=
  (places.find? (·.depth == depth)).map Place.path

end Place

mutual
/-- Every predicate and condition inside a predicate, itself included. -/
def Predicate.places : Predicate → List Place
  | .expression properties => .root :: Predicate.propertyPlaces properties
  | .all operands =>
    .root :: (Predicate.operandPlaces 0 operands).map (.under (.key Operator.all.key))
  | .any operands =>
    .root :: (Predicate.operandPlaces 0 operands).map (.under (.key Operator.any.key))
  | .not operand => .root :: operand.places.map (.below (.key Operator.not.key))
  | .primitive _ => [.root]

def Predicate.operandPlaces (position : Nat) : List Predicate → List Place
  | [] => []
  | p :: rest =>
    p.places.map (.below (.index position)) ++ Predicate.operandPlaces (position + 1) rest

def Predicate.propertyPlaces : List (String × Condition) → List Place
  | [] => []
  | (key, condition) :: rest =>
    condition.places.map (.below (.key key)) ++ Predicate.propertyPlaces rest

def Condition.places : Condition → List Place
  | .contains element => .root :: element.places.map (.below (.key Operator.contains.key))
  | _ => [.root]
end

namespace Place

@[simp] theorem firstAt?_root_zero (rest : List Place) :
    firstAt? 0 (root :: rest) = some .root := by
  simp [firstAt?, root]

@[simp] theorem firstAt?_root_succ (depth : Nat) (rest : List Place) :
    firstAt? (depth + 1) (root :: rest) = firstAt? (depth + 1) rest := by
  simp [firstAt?, root]

@[simp] theorem firstAt?_nil (depth : Nat) : firstAt? depth [] = none := rfl

theorem firstAt?_append (depth : Nat) (front back : List Place) :
    firstAt? depth (front ++ back) = (firstAt? depth front).or (firstAt? depth back) := by
  simp [firstAt?, List.find?_append, Option.map_or]

theorem firstAt?_map_under (depth : Nat) (step : Segment) (places : List Place) :
    firstAt? depth (places.map (under step)) =
      (firstAt? depth places).map (NodePath.under step) := by
  simp [firstAt?, List.find?_map, Function.comp_def, under]

theorem firstAt?_map_below (depth : Nat) (step : Segment) (places : List Place) :
    firstAt? (depth + 1) (places.map (below step)) =
      (firstAt? depth places).map (NodePath.under step) := by
  simp [firstAt?, List.find?_map, Function.comp_def, below]

end Place

mutual
/-- The depths that occur are all those from zero to the depth of the whole. -/
theorem Predicate.isSome_firstAt?_places (p : Predicate) (depth : Nat) :
    (Place.firstAt? depth p.places).isSome ↔ depth ≤ p.depth := by
  cases depth with
  | zero => cases p <;> simp [Predicate.places]
  | succ depth =>
    cases p with
    | expression properties =>
      simpa [Predicate.places, Predicate.depth] using
        Predicate.isSome_firstAt?_propertyPlaces properties depth
    | all operands =>
      simpa [Predicate.places, Predicate.depth, Place.firstAt?_map_under] using
        Predicate.isSome_firstAt?_operandPlaces operands 0 depth
    | any operands =>
      simpa [Predicate.places, Predicate.depth, Place.firstAt?_map_under] using
        Predicate.isSome_firstAt?_operandPlaces operands 0 depth
    | not operand =>
      simpa [Predicate.places, Predicate.depth, Place.firstAt?_map_below] using
        Predicate.isSome_firstAt?_places operand depth
    | primitive => simp [Predicate.places, Predicate.depth]

theorem Predicate.isSome_firstAt?_operandPlaces (operands : List Predicate) (position : Nat)
    (depth : Nat) :
    (Place.firstAt? (depth + 1) (Predicate.operandPlaces position operands)).isSome ↔
      depth + 1 ≤ Predicate.listDepth operands := by
  cases operands with
  | nil => simp [Predicate.operandPlaces, Predicate.listDepth]
  | cons p rest =>
    have hfirst := Predicate.isSome_firstAt?_places p depth
    have hrest := Predicate.isSome_firstAt?_operandPlaces rest (position + 1) depth
    simp only [Predicate.operandPlaces, Predicate.listDepth, Place.firstAt?_append,
      Place.firstAt?_map_below, Option.isSome_or, Option.isSome_map, Bool.or_eq_true, hfirst, hrest]
    omega

theorem Predicate.isSome_firstAt?_propertyPlaces (properties : List (String × Condition))
    (depth : Nat) :
    (Place.firstAt? (depth + 1) (Predicate.propertyPlaces properties)).isSome ↔
      depth + 1 ≤ Predicate.propertiesDepth properties := by
  cases properties with
  | nil => simp [Predicate.propertyPlaces, Predicate.propertiesDepth]
  | cons property rest =>
    have hfirst := Condition.isSome_firstAt?_places property.2 depth
    have hrest := Predicate.isSome_firstAt?_propertyPlaces rest depth
    simp only [Predicate.propertyPlaces, Predicate.propertiesDepth, Place.firstAt?_append,
      Place.firstAt?_map_below, Option.isSome_or, Option.isSome_map, Bool.or_eq_true, hfirst, hrest]
    omega

theorem Condition.isSome_firstAt?_places (c : Condition) (depth : Nat) :
    (Place.firstAt? depth c.places).isSome ↔ depth ≤ c.depth := by
  cases depth with
  | zero => cases c <;> simp [Condition.places]
  | succ depth =>
    cases c with
    | contains element =>
      simpa [Condition.places, Condition.depth, Place.firstAt?_map_below] using
        Predicate.isSome_firstAt?_places element depth
    | primitive | present | oneOf => simp [Condition.places, Condition.depth]
end

end ConfiguredPredicates
