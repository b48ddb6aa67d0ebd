import ConfiguredPredicates.Proofs.Equality.Alike
import ConfiguredPredicates.Proofs.Obtainable
import ConfiguredPredicates.Proofs.ReadBack

/-!
Equal trees are read alike: as equal predicates, or with the same violation at the same
place. A predicate that is read back from its tree as itself is therefore known by its tree
up to equality, whichever zeros are inside.
-/

namespace ConfiguredPredicates

/-- Equal results, or one and the same violation. -/
inductive Agree [BEq α] : Except Violation α → Except Violation α → Prop
  | ok {a b : α} : a == b → Agree (.ok a) (.ok b)
  | error (x : Violation) : Agree (.error x) (.error x)

section
variable {α β : Type} [BEq α] [BEq β] {x y : Except Violation α}

theorem Agree.map {f : α → β} (hf : ∀ a b, a == b → f a == f b) (h : Agree x y) :
    Agree (f <$> x) (f <$> y) := by
  cases h with
  | ok hab => exact .ok (hf _ _ hab)
  | error x => exact .error x

theorem Agree.bind {f g : α → Except Violation β} (h : Agree x y)
    (hf : ∀ a b, a == b → Agree (f a) (g b)) : Agree (x >>= f) (y >>= g) := by
  cases h with
  | ok hab => exact hf _ _ hab
  | error x => exact .error x

theorem Agree.within (step : Segment) (h : Agree x y) :
    Agree (Violation.within step x) (Violation.within step y) := by
  cases h with
  | ok hab => exact .ok hab
  | error x => exact .error _

end

namespace OfJson

section
variable {α : Type} [BEq α] {read : Json → Except Violation α}
  (hread : ∀ v w, v == w → Agree (read v) (read w))
include hread

theorem items_agree {vs ws : List Json} (h : List.Forall₂ (· == ·) vs ws) (position : Nat) :
    Agree (items read position vs) (items read position ws) := by
  induction h generalizing position with
  | nil => exact .ok (beq_iff_forall₂.2 .nil)
  | cons hhead _ ih =>
    rw [items, items]
    refine ((hread _ _ hhead).within _).bind fun a b hab => ?_
    refine (ih (position + 1)).bind fun as bs hrest => .ok ?_
    exact beq_iff_forall₂.2 (.cons hab (beq_iff_forall₂.1 hrest))

theorem properties_agree {ms ns : List (String × Json)} (h : List.Forall₂ (· == ·) ms ns) :
    Agree (properties read ms) (properties read ns) := by
  induction h with
  | nil => exact .ok (beq_iff_forall₂.2 .nil)
  | @cons m n _ _ hhead _ ih =>
    obtain ⟨key, v⟩ := m
    obtain ⟨_, w⟩ := n
    obtain ⟨rfl, hvalue⟩ := entry_beq_iff.1 hhead
    rw [properties, properties]
    refine ((hread _ _ hvalue).within _).bind fun a b hab => ?_
    refine ih.bind fun as bs hrest => .ok ?_
    exact beq_iff_forall₂.2 (.cons (entry_beq_iff.2 ⟨rfl, hab⟩) (beq_iff_forall₂.1 hrest))

theorem operands_agree {v w : Json} (h : v == w) :
    Agree (operands read v) (operands read w) := by
  cases Json.beq_iff_alike.1 h with
  | array hitems => exact items_agree hread hitems 0
  | null | bool | number | string | object => exact .error _

end

theorem primitive_agree {v w : Json} (h : v == w) : Agree (primitive v) (primitive w) := by
  cases Json.beq_iff_alike.1 h with
  | bool | number | string => exact .ok (Primitive.beq_of_ofJson? h rfl rfl)
  | null | array | object => exact .error _

theorem choices_agree {v w : Json} (h : v == w) : Agree (choices v) (choices w) := by
  cases Json.beq_iff_alike.1 h with
  | array hitems => exact items_agree (fun _ _ => primitive_agree) hitems 0
  | null | bool | number | string | object => exact .error _

theorem flag_agree {v w : Json} (h : v == w) : Agree (flag v) (flag w) := by
  cases Json.beq_iff_alike.1 h with
  | bool b => exact .ok (beq_self_eq_true b)
  | null | number | string | array | object => exact .error _

section
variable {ms ns : List (String × Json)} (hmembers : List.Forall₂ (· == ·) ms ns)
include hmembers

theorem soleMember_agree : Agree (soleMember ms) (soleMember ns) := by
  have hkeys := Entries.keys_eq_of_forall₂ hmembers
  cases hmembers with
  | nil => exact .error _
  | cons hhead hrest =>
    cases hrest with
    | nil => exact .ok hhead
    | cons =>
      rw [soleMember, soleMember, hkeys]
      · exact .error _
      all_goals simp

theorem soleMember_bind_agree [BEq β] {f : String × Json → Except Violation β}
    (hf : ∀ key v w, v == w → Agree (f (key, v)) (f (key, w))) :
    Agree (soleMember ms >>= f) (soleMember ns >>= f) := by
  refine (soleMember_agree hmembers).bind fun m n hmember => ?_
  obtain ⟨key, v⟩ := m
  obtain ⟨_, w⟩ := n
  obtain ⟨rfl, hoperand⟩ := entry_beq_iff.1 hmember
  exact hf key v w hoperand

theorem usesOperator_eq_of_forall₂ : usesOperator ms = usesOperator ns := by
  have hany : ∀ members : List (String × Json),
      usesOperator members = (Entries.keys members).any isOperatorKey := by
    simp [usesOperator, Entries.keys, List.any_map, Function.comp_def]
  rw [hany, hany, Entries.keys_eq_of_forall₂ hmembers]

end

section
variable {readPredicate : Json → Except Violation Predicate}
  {readCondition : Json → Except Violation Condition}
  (hpredicate : ∀ v w, v == w → Agree (readPredicate v) (readPredicate w))
  (hcondition : ∀ v w, v == w → Agree (readCondition v) (readCondition w))
include hpredicate

theorem combination_agree (key : String) {v w : Json} (h : v == w) :
    Agree (combination readPredicate key v) (combination readPredicate key w) := by
  unfold combination
  split
  · exact (operands_agree hpredicate h).map fun ps qs hps =>
      Predicate.beq_iff_alike.2 (.all (beq_iff_forall₂.1 hps))
  · exact (operands_agree hpredicate h).map fun ps qs hps =>
      Predicate.beq_iff_alike.2 (.any (beq_iff_forall₂.1 hps))
  · exact (hpredicate v w h).map fun p q hpq => Predicate.beq_iff_alike.2 (.not hpq)
  · exact .error _
  · exact .error _

theorem requirement_agree (key : String) {v w : Json} (h : v == w) :
    Agree (requirement readPredicate key v) (requirement readPredicate key w) := by
  unfold requirement
  split
  · exact (flag_agree h).map fun a b hab =>
      Condition.beq_iff_alike.2 (eq_of_beq hab ▸ .present a)
  · exact (choices_agree h).map fun as bs hchoices =>
      Condition.beq_iff_alike.2 (.oneOf (beq_iff_forall₂.1 hchoices))
  · exact (hpredicate v w h).map fun p q hpq => Condition.beq_iff_alike.2 (.contains hpq)
  · exact .error _
  · exact .error _

theorem conditionLayer_agree {v w : Json} (h : v == w) :
    Agree (conditionLayer readPredicate v) (conditionLayer readPredicate w) := by
  cases Json.beq_iff_alike.1 h with
  | bool | number | string =>
    have hprimitive := Primitive.beq_of_ofJson? h rfl rfl
    exact .ok (Condition.beq_iff_alike.2 (.primitive hprimitive))
  | null | array => exact .error _
  | object hmembers =>
    simp only [conditionLayer, Primitive.ofJson?, usesOperator_eq_of_forall₂ hmembers]
    split
    · exact soleMember_bind_agree hmembers fun key v w hoperand =>
        (requirement_agree hpredicate key hoperand).within _
    · exact .error _

include hcondition

theorem predicateLayer_agree {v w : Json} (h : v == w) :
    Agree (predicateLayer readPredicate readCondition v)
      (predicateLayer readPredicate readCondition w) := by
  cases Json.beq_iff_alike.1 h with
  | bool | number | string =>
    have hprimitive := Primitive.beq_of_ofJson? h rfl rfl
    exact .ok (Predicate.beq_iff_alike.2 (.primitive hprimitive))
  | null | array => exact .error _
  | object hmembers =>
    simp only [predicateLayer, Primitive.ofJson?, usesOperator_eq_of_forall₂ hmembers]
    split
    · exact soleMember_bind_agree hmembers fun key v w hoperand =>
        (combination_agree hpredicate key hoperand).within _
    · refine (properties_agree hcondition hmembers).bind fun cs ds hconditions => .ok ?_
      have hentered := Entries.forall₂_ofList (beq_iff_forall₂.1 hconditions)
      exact Predicate.beq_iff_alike.2 (.expression hentered)

end

theorem within_agree (limit levels : Nat) :
    (∀ v w : Json, v == w →
      Agree (predicateWithin limit levels v) (predicateWithin limit levels w)) ∧
    ∀ v w : Json, v == w →
      Agree (conditionWithin limit levels v) (conditionWithin limit levels w) := by
  induction levels with
  | zero => exact ⟨fun _ _ _ => .error _, fun _ _ _ => .error _⟩
  | succ levels ih =>
    obtain ⟨hpredicate, hcondition⟩ := ih
    refine ⟨fun v w h => ?_, fun v w h => ?_⟩
    · exact predicateLayer_agree hpredicate hcondition h
    · exact conditionLayer_agree hpredicate h

end OfJson

open OfJson

theorem Predicate.ofJsonWithin_agree (limit : Nat) {v w : Json} (h : v == w) :
    Agree (Predicate.ofJsonWithin limit v) (Predicate.ofJsonWithin limit w) :=
  (within_agree limit (limit + 1)).1 v w h

theorem Condition.ofJsonWithin_agree (limit : Nat) {v w : Json} (h : v == w) :
    Agree (Condition.ofJsonWithin limit v) (Condition.ofJsonWithin limit w) :=
  (within_agree limit (limit + 1)).2 v w h

theorem Predicate.beq_of_toJson_beq {p q : Predicate} (hp : p.WellFormed) (hq : q.WellFormed)
    (h : p.toJson == q.toJson) : p == q := by
  have hreadp := Predicate.ofJsonWithin_toJson hp (Nat.le_max_left p.depth q.depth)
  have hreadq := Predicate.ofJsonWithin_toJson hq (Nat.le_max_right p.depth q.depth)
  have hagree := Predicate.ofJsonWithin_agree (max p.depth q.depth) h
  rw [hreadp, hreadq] at hagree
  cases hagree with
  | ok hpq => exact hpq

theorem Condition.beq_of_toJson_beq {c d : Condition} (hc : c.WellFormed) (hd : d.WellFormed)
    (h : c.toJson == d.toJson) : c == d := by
  have hreadc := Condition.ofJsonWithin_toJson hc (Nat.le_max_left c.depth d.depth)
  have hreadd := Condition.ofJsonWithin_toJson hd (Nat.le_max_right c.depth d.depth)
  have hagree := Condition.ofJsonWithin_agree (max c.depth d.depth) h
  rw [hreadc, hreadd] at hagree
  cases hagree with
  | ok hcd => exact hcd

/-- Predicates are equal exactly when their trees are, and equal trees are read alike within
every limit. Whole numbers and floats are never equal, and the two zeros are. -/
theorem beq_iff_toJson_beq_of_obtainable :
    (∀ p q : Predicate, p.Obtainable → q.Obtainable → (p == q ↔ p.toJson == q.toJson)) ∧
    (∀ c d : Condition, c.Obtainable → d.Obtainable → (c == d ↔ c.toJson == d.toJson)) ∧
    (∀ v w : Json, v == w → ∀ limit,
      Agree (Predicate.ofJsonWithin limit v) (Predicate.ofJsonWithin limit w) ∧
      Agree (Condition.ofJsonWithin limit v) (Condition.ofJsonWithin limit w)) ∧
    (∀ m n : WholeNumber, Number.whole m == .whole n ↔ m = n) ∧
    (∀ x y : FiniteFloat, Number.float x == .float y ↔ x.value == y.value) ∧
    (∀ (n : WholeNumber) (x : FiniteFloat),
      Number.whole n != .float x ∧ Number.float x != .whole n) ∧
    Number.float ⟨0.0, rfl⟩ == .float ⟨-0.0, rfl⟩ := by
  refine ⟨fun p q hp hq => ⟨p.toJson_beq, ?_⟩, fun c d hc hd => ⟨c.toJson_beq, ?_⟩,
    fun v w h limit => ⟨?_, ?_⟩, fun m n => ?_, fun x y => Iff.rfl, fun n x => ⟨rfl, rfl⟩, rfl⟩
  · exact Predicate.beq_of_toJson_beq hp.wellFormed hq.wellFormed
  · exact Condition.beq_of_toJson_beq hc.wellFormed hd.wellFormed
  · exact Predicate.ofJsonWithin_agree limit h
  · exact Condition.ofJsonWithin_agree limit h
  · obtain ⟨m, _, _⟩ := m
    obtain ⟨n, _, _⟩ := n
    rw [WholeNumber.mk.injEq]
    exact @beq_iff_eq Int _ _ m n

theorem beq_iff_toJson_beq_of_obtainable_zeros :
    let p : Predicate := .not (.primitive (.number (.float ⟨0.0, rfl⟩)))
    let q : Predicate := .not (.primitive (.number (.float ⟨-0.0, rfl⟩)))
    let c : Condition := .contains p
    let d : Condition := .contains q
    (p.Obtainable ∧ q.Obtainable ∧ p.toJson == q.toJson ∧ p == q) ∧
    (c.Obtainable ∧ d.Obtainable ∧ c.toJson == d.toJson ∧ c == d) ∧
    (Predicate.ofJsonWithin 1 p.toJson = .ok p ∧
      Agree (Predicate.ofJsonWithin 1 p.toJson) (Predicate.ofJsonWithin 1 q.toJson)) ∧
    Predicate.ofJsonWithin 0 p.toJson = .error ⟨⟨[.key "$not"]⟩, .tooDeep 0⟩ ∧
      Agree (Predicate.ofJsonWithin 0 p.toJson) (Predicate.ofJsonWithin 0 q.toJson) := by
  intro p q c d
  have hp : p.Obtainable := .not (.primitive _)
  have hq : q.Obtainable := .not (.primitive _)
  have hc : c.Obtainable := .contains hp
  have hd : d.Obtainable := .contains hq
  have htrees : p.toJson == q.toJson := rfl
  have htrees' : c.toJson == d.toJson := rfl
  obtain ⟨hpredicate, hcondition, hread, -⟩ := beq_iff_toJson_beq_of_obtainable
  exact ⟨⟨hp, hq, htrees, (hpredicate p q hp hq).2 htrees⟩,
    ⟨hc, hd, htrees', (hcondition c d hc hd).2 htrees'⟩,
    ⟨rfl, (hread _ _ htrees 1).1⟩, rfl, (hread _ _ htrees 0).1⟩

end ConfiguredPredicates
