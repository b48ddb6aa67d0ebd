import ConfiguredPredicates.Proofs.Layers.Related
import Mathlib.Data.Nat.Find

/-!
One tree read at all limits. Going one level further only matters where the limit was
passed, and then the next place where it is passed lies behind in document order. Main
statement: there is one limit, no larger than the nesting of the tree, from which on the
outcome is one and the same; below it the limit itself is the violation.
-/

namespace ConfiguredPredicates

/-- Steps from one node in the order of the document: indices by number, keys by code point. -/
inductive Segment.Before : Segment → Segment → Prop
  | index {position later : Nat} : position < later →
      Segment.Before (.index position) (.index later)
  | key {name later : String} : name < later → Segment.Before (.key name) (.key later)

/-- The order of the document, a node before all that stands inside it. -/
def NodePath.Before (path later : NodePath) : Prop :=
  List.Lex Segment.Before path.segments later.segments

theorem Segment.Before.trans {a b c : Segment} (h : a.Before b) (h' : b.Before c) :
    a.Before c := by
  cases h with
  | index hab =>
    cases h' with
    | index hbc => exact .index (Nat.lt_trans hab hbc)
  | key hab =>
    cases h' with
    | key hbc => exact .key (String.lt_trans hab hbc)

namespace NodePath

theorem Before.trans {a b c : NodePath} (h : a.Before b) (h' : b.Before c) : a.Before c :=
  List.lex_trans (fun hab hbc => Segment.Before.trans hab hbc) h h'

theorem root_before_under (step : Segment) (path : NodePath) : root.Before (path.under step) :=
  .nil

theorem Before.under {path later : NodePath} (h : path.Before later) (step : Segment) :
    (path.under step).Before (later.under step) :=
  .cons h

theorem under_before_under {step later : Segment} (h : step.Before later) (a b : NodePath) :
    (a.under step).Before (b.under later) :=
  .rel h

end NodePath

namespace OfJson

variable {α β γ : Type}

/-- How an outcome may change when reading goes one level further. -/
structure Advances (outcome further : Except Violation α) : Prop where
  settled : passedAt? outcome = none → further = outcome
  moved : ∀ path later, passedAt? outcome = some path → passedAt? further = some later →
    path.Before later

theorem layerRelation_advances : LayerRelation Advances where
  same {α outcome} h := ⟨fun _ => rfl, fun path later hpath _ => by simp [h] at hpath⟩
  map {α β} f {a b} h := by
    refine ⟨fun hnone => ?_, fun path later hpath hlater => ?_⟩
    · rw [passedAt?_map] at hnone
      rw [h.settled hnone]
    · rw [passedAt?_map] at hpath hlater
      exact h.moved path later hpath hlater
  within {α} step {a b} h := by
    refine ⟨fun hnone => ?_, fun path later hpath hlater => ?_⟩
    · rw [passedAt?_within, Option.map_eq_none_iff] at hnone
      rw [h.settled hnone]
    · rw [passedAt?_within, Option.map_eq_some_iff] at hpath hlater
      obtain ⟨inner, hinner, rfl⟩ := hpath
      obtain ⟨innerLater, hinnerLater, rfl⟩ := hlater
      exact (h.moved inner innerLater hinner hinnerLater).under step

theorem Advances.andThen (f : α → β → γ) {a a' : Except Violation α} {b b' : Except Violation β}
    (ha : Advances a a') (hb : Advances b b')
    (hbehind : ∀ path later, passedAt? a = some path → passedAt? b' = some later →
      path.Before later) :
    Advances (do let x ← a; let y ← b; .ok (f x y)) (do let x ← a'; let y ← b'; .ok (f x y)) := by
  have hrest : ∀ (x : α) (c : Except Violation β),
      (do let y ← c; .ok (f x y) : Except Violation γ) = f x <$> c := by
    intro x c
    cases c <;> rfl
  simp only [hrest]
  cases a with
  | ok x =>
    rw [ha.settled rfl]
    exact layerRelation_advances.map (f x) hb
  | error e =>
    refine ⟨fun hnone => ?_, fun path later hpath hlater => ?_⟩
    · rw [ha.settled hnone]
      rfl
    · cases a' with
      | ok x => exact hbehind path later hpath ((passedAt?_map (f x)).symm.trans hlater)
      | error e' => exact ha.moved path later hpath hlater

theorem items_advances {read further : Json → Except Violation α} {values : List Json}
    (h : ∀ v ∈ values, Advances (read v) (further v)) (position : Nat) :
    Advances (items read position values) (items further position values) := by
  induction values generalizing position with
  | nil => exact layerRelation_advances.same rfl
  | cons v rest ih =>
    obtain ⟨hv, hrest⟩ := List.forall_mem_cons.1 h
    have hfirst := layerRelation_advances.within (.index position) hv
    -- Where the first item no longer passes the limit, a later one may, under a later index.
    refine hfirst.andThen List.cons (ih hrest (position + 1)) fun path later hpath hlater => ?_
    rw [passedAt?_within, Option.map_eq_some_iff] at hpath
    obtain ⟨inner, -, rfl⟩ := hpath
    obtain ⟨_, -, innerLater, -, index, hindex, rfl⟩ := exists_of_passedAt?_items hlater
    exact NodePath.under_before_under (.index hindex) inner innerLater

theorem properties_advances {read further : Json → Except Violation α}
    {members : List (String × Json)} (hsorted : Entries.Sorted members)
    (h : ∀ member ∈ members, Advances (read member.2) (further member.2)) :
    Advances (properties read members) (properties further members) := by
  induction members with
  | nil => exact layerRelation_advances.same rfl
  | cons member rest ih =>
    obtain ⟨key, v⟩ := member
    obtain ⟨hbelow, hrest⟩ := List.pairwise_cons.1 hsorted
    obtain ⟨hv, hothers⟩ := List.forall_mem_cons.1 h
    have hfirst := layerRelation_advances.within (.key key) hv
    -- Where the first property no longer passes the limit, one with a greater key may.
    refine hfirst.andThen (fun first others => (key, first) :: others) (ih hrest hothers)
      fun path later hpath hlater => ?_
    rw [passedAt?_within, Option.map_eq_some_iff] at hpath
    obtain ⟨inner, -, rfl⟩ := hpath
    obtain ⟨other, hother, innerLater, -, rfl⟩ := exists_of_passedAt?_properties hlater
    exact NodePath.under_before_under (.key (hbelow other hother)) inner innerLater

theorem RefusesPredicate.exists_under {readPredicate : Json → Except Violation Predicate}
    {readCondition : Json → Except Violation Condition} {v : Json} {x : Violation} {limit : Nat}
    (h : RefusesPredicate readPredicate readCondition v x) (hx : x.cause = .tooDeep limit) :
    ∃ step inner, x.path = NodePath.under step inner := by
  cases h with
  | unexpected | sharedOperator => cases hx
  | property | operands | operand | not | conditionOperator | unknownOperator =>
    exact ⟨_, _, rfl⟩

theorem RefusesCondition.exists_under {readPredicate : Json → Except Violation Predicate}
    {v : Json} {x : Violation} {limit : Nat} (h : RefusesCondition readPredicate v x)
    (hx : x.cause = .tooDeep limit) : ∃ step inner, x.path = NodePath.under step inner := by
  cases h with
  | unexpected | plainObject | sharedOperator => cases hx
  | flag | choices | choice | contains | combinator | unknownOperator => exact ⟨_, _, rfl⟩

theorem advances_of_root {outcome further : Except Violation α}
    (hroot : passedAt? outcome = some .root)
    (hbelow : ∀ x limit, further = .error x → x.cause = .tooDeep limit →
      ∃ step inner, x.path = NodePath.under step inner) : Advances outcome further := by
  refine ⟨fun hnone => by simp [hroot] at hnone, fun path later hpath hlater => ?_⟩
  obtain ⟨limit, herror⟩ := passedAt?_eq_some_iff.1 hlater
  obtain ⟨step, inner, hunder⟩ := hbelow _ limit herror rfl
  obtain rfl : later = NodePath.under step inner := hunder
  rw [hroot] at hpath
  cases hpath
  exact NodePath.root_before_under step inner

theorem within_advances (limit levels : Nat) :
    (∀ v, v.Ordered →
      Advances (predicateWithin limit levels v) (predicateWithin limit (levels + 1) v)) ∧
    ∀ v, v.Ordered →
      Advances (conditionWithin limit levels v) (conditionWithin limit (levels + 1) v) := by
  -- Without levels the limit is passed at the root, and a layer passes it only further down.
  induction levels with
  | zero =>
    refine ⟨fun v _ => ?_, fun v _ => ?_⟩
    · refine advances_of_root rfl fun x _ h hx => ?_
      exact (((predicateLayer_eq_iff v).2 x).1 h).exists_under hx
    · refine advances_of_root rfl fun x _ h hx => ?_
      exact (((conditionLayer_eq_iff v).2 x).1 h).exists_under hx
  | succ levels ih =>
    obtain ⟨hpredicate, hcondition⟩ := ih
    refine ⟨fun v hv => ?_, fun v hv => ?_⟩
    · refine predicateLayer_related layerRelation_advances ?_ ?_ ?_
      · rintro operand rfl
        exact hpredicate operand (Operator.ordered_operand hv)
      · rintro op join values - rfl
        have hvalues := (Operator.ordered_operand hv).of_item
        exact items_advances (fun w hw => hpredicate w (hvalues w hw)) 0
      · rintro members rfl -
        exact properties_advances hv.sorted fun member hmember =>
          hcondition member.2 (hv.of_member member hmember)
    · refine conditionLayer_related layerRelation_advances ?_
      rintro operand rfl
      exact hpredicate operand (Operator.ordered_operand hv)

theorem layerRelation_notPassed : LayerRelation fun outcome _ => passedAt? outcome = none where
  same {α outcome} h := h
  map {α β} f {a b} h := by rw [passedAt?_map, h]
  within {α} step {a b} h := by rw [passedAt?_within, h, Option.map_none]

theorem passedAt?_items_eq_none {read : Json → Except Violation α} {values : List Json}
    (h : ∀ v ∈ values, passedAt? (read v) = none) (position : Nat) :
    passedAt? (items read position values) = none := by
  refine Option.eq_none_iff_forall_ne_some.2 fun path hpath => ?_
  obtain ⟨v, hv, inner, hinner, -⟩ := exists_of_passedAt?_items hpath
  rw [h v hv] at hinner
  cases hinner

theorem passedAt?_properties_eq_none {read : Json → Except Violation α}
    {members : List (String × Json)} (h : ∀ member ∈ members, passedAt? (read member.2) = none) :
    passedAt? (properties read members) = none := by
  refine Option.eq_none_iff_forall_ne_some.2 fun path hpath => ?_
  obtain ⟨member, hmember, inner, hinner, -⟩ := exists_of_passedAt?_properties hpath
  rw [h member hmember] at hinner
  cases hinner

theorem passedAt?_within_of_nesting_lt (limit levels : Nat) :
    (∀ v, v.nesting < levels → passedAt? (predicateWithin limit levels v) = none) ∧
      ∀ v, v.nesting < levels → passedAt? (conditionWithin limit levels v) = none := by
  -- A layer takes one level, and what its readers are given nests at least one less.
  induction levels with
  | zero => exact ⟨fun v h => absurd h (Nat.not_lt_zero _), fun v h => absurd h (Nat.not_lt_zero _)⟩
  | succ levels ih =>
    obtain ⟨hpredicate, hcondition⟩ := ih
    refine ⟨fun v h => ?_, fun v h => ?_⟩
    · refine @predicateLayer_related (fun outcome _ => passedAt? outcome = none)
        (predicateWithin limit levels) (predicateWithin limit levels)
        (conditionWithin limit levels) (conditionWithin limit levels)
        layerRelation_notPassed v ?_ ?_ ?_
      · rintro operand rfl
        rw [Operator.nesting_apply] at h
        exact hpredicate operand (Nat.lt_of_succ_lt_succ h)
      · rintro op join values - rfl
        rw [Operator.nesting_apply, Json.nesting] at h
        refine passedAt?_items_eq_none (fun w hw => hpredicate w ?_) 0
        have hle := Json.nestingItems_le_iff.1 (Nat.le_refl _) w hw
        omega
      · rintro members rfl -
        rw [Json.nesting] at h
        refine passedAt?_properties_eq_none fun member hmember => hcondition member.2 ?_
        have hle := Json.nestingMembers_le_iff.1 (Nat.le_refl _) member hmember
        omega
    · refine @conditionLayer_related (fun outcome _ => passedAt? outcome = none)
        (predicateWithin limit levels) (predicateWithin limit levels) layerRelation_notPassed v ?_
      rintro operand rfl
      rw [Operator.nesting_apply] at h
      exact hpredicate operand (Nat.lt_of_succ_lt_succ h)

/-- The outcomes at all limits: from the threshold on one and the same, and before it the
violation of the limit, at places that go on in document order. -/
structure SwitchesAt (read : Nat → Except Violation α) (threshold : Nat)
    (outcome : Except Violation α) (place : Nat → NodePath) : Prop where
  ne_tooDeep : ∀ path limit, outcome ≠ .error ⟨path, .tooDeep limit⟩
  settled : ∀ limit ≥ threshold, read limit = outcome
  tooDeep : ∀ limit < threshold, read limit = .error ⟨place limit, .tooDeep limit⟩
  onward : ∀ limit later, limit < later → later < threshold → (place limit).Before (place later)

theorem exists_switch {run : Nat → Except Violation α} (hstep : ∀ n, Advances (run n) (run (n + 1)))
    {bound : Nat} (hbound : passedAt? (run bound) = none) :
    ∃ threshold ≤ bound, ∃ place : Nat → NodePath,
      (∀ n ≥ threshold, run n = run threshold) ∧ passedAt? (run threshold) = none ∧
      (∀ n < threshold, passedAt? (run n) = some (place n)) ∧
      ∀ n later, n < later → later < threshold → (place n).Before (place later) := by
  -- The threshold is the first of the run that is not passed; from there nothing changes.
  classical
  have hexists : ∃ n, passedAt? (run n) = none := ⟨bound, hbound⟩
  have hnone := Nat.find_spec hexists
  let place n := (passedAt? (run n)).getD .root
  have hplace : ∀ n < Nat.find hexists, passedAt? (run n) = some (place n) := by
    intro n hn
    obtain ⟨path, hpath⟩ := Option.ne_none_iff_exists'.1 (Nat.find_min hexists hn)
    simp [place, hpath]
  refine ⟨Nat.find hexists, Nat.find_min' hexists hbound, place, ?_, hnone, hplace, ?_⟩
  · intro n hn
    induction n, hn using Nat.le_induction with
    | base => rfl
    | succ n hn ih => rw [(hstep n).settled (ih ▸ hnone), ih]
  · intro n later hlt
    induction later, hlt using Nat.le_induction with
    | base =>
      intro hlater
      exact (hstep n).moved _ _ (hplace n (by omega)) (hplace _ hlater)
    | succ later hlt ih =>
      intro hlater
      have hnext := (hstep later).moved _ _ (hplace later (by omega)) (hplace _ hlater)
      exact (ih (by omega)).trans hnext

theorem exists_switchesAt_of_advances {within : Nat → Nat → Except Violation α} {bound : Nat}
    (hnaming : ∀ limit levels, within limit levels =
      (within 0 levels).mapError (Violation.naming limit))
    (hstep : ∀ levels, Advances (within 0 levels) (within 0 (levels + 1)))
    (hbound : passedAt? (within 0 (bound + 1)) = none) :
    ∃ threshold ≤ bound, ∃ outcome place,
      SwitchesAt (fun limit => within limit (limit + 1)) threshold outcome place := by
  obtain ⟨threshold, hle, place, hsettled, hnone, hplace, honward⟩ :=
    exists_switch (fun n => hstep (n + 1)) hbound
  refine ⟨threshold, hle, within 0 (threshold + 1), place, ?_, ?_, ?_, honward⟩
  · intro path limit h
    have hpassed := passedAt?_eq_some_iff.2 ⟨limit, h⟩
    rw [hnone] at hpassed
    cases hpassed
  · intro limit hlimit
    rw [hnaming, hsettled limit hlimit]
    exact ((layerRelation_naming limit).same hnone).symm
  · intro limit hlimit
    obtain ⟨named, h⟩ := passedAt?_eq_some_iff.1 (hplace limit hlimit)
    rw [hnaming, h]
    rfl

end OfJson

open OfJson in
/-- Every tree, accepted or not, has one limit from which on its reading comes out the same. -/
theorem exists_switchesAt {v : Json} (hv : v.Ordered) :
    (∃ threshold ≤ v.nesting, ∃ outcome place,
      SwitchesAt (Predicate.ofJsonWithin · v) threshold outcome place) ∧
    ∃ threshold ≤ v.nesting, ∃ outcome place,
      SwitchesAt (Condition.ofJsonWithin · v) threshold outcome place := by
  obtain ⟨hpredicate, hcondition⟩ := passedAt?_within_of_nesting_lt 0 (v.nesting + 1)
  constructor
  · exact exists_switchesAt_of_advances (fun limit levels => (within_naming limit 0 levels).1 v)
      (fun levels => (within_advances 0 levels).1 v hv) (hpredicate v (Nat.lt_succ_self _))
  · exact exists_switchesAt_of_advances (fun limit levels => (within_naming limit 0 levels).2 v)
      (fun levels => (within_advances 0 levels).2 v hv) (hcondition v (Nat.lt_succ_self _))

open OfJson in
theorem exists_switchesAt_any :
    let v : Json := .object [("$any", .array [.object [("kind", .string "api")],
      .object [("$not", .object [("a", .null)])]])]
    let x : Violation :=
      ⟨⟨[.key "$any", .index 1, .key "$not", .key "a"]⟩, .unexpected .condition .null⟩
    v.Ordered ∧ v.nesting = 4 ∧ ∃ place, place 0 = ⟨[.key "$any", .index 0]⟩ ∧
      place 1 = ⟨[.key "$any", .index 0, .key "kind"]⟩ ∧ place 2 = x.path ∧
      SwitchesAt (Predicate.ofJsonWithin · v) 3 (.error x) place := by
  intro v x
  have hv : v.Ordered := Json.ordered_canonical v
  obtain ⟨⟨threshold, -, outcome, place, h⟩, -⟩ := exists_switchesAt hv
  have hthree : Predicate.ofJsonWithin 3 v = .error x := rfl
  have htwo : Predicate.ofJsonWithin 2 v = .error ⟨x.path, .tooDeep 2⟩ := rfl
  have hle : threshold ≤ 3 := by
    by_contra hlt
    have hsame := hthree.symm.trans (h.tooDeep 3 (by omega))
    simp [x] at hsame
  have hge : 3 ≤ threshold := by
    by_contra hlt
    exact h.ne_tooDeep _ _ ((h.settled 2 (by omega)).symm.trans htwo)
  obtain rfl : threshold = 3 := by omega
  obtain rfl : outcome = .error x := (h.settled 3 (Nat.le_refl 3)).symm.trans hthree
  have hplace : ∀ limit < 3, ∀ path,
      Predicate.ofJsonWithin limit v = .error ⟨path, .tooDeep limit⟩ → place limit = path := by
    intro limit hlimit path hread
    have hsame := (h.tooDeep limit hlimit).symm.trans hread
    simpa using hsame
  exact ⟨hv, rfl, place, hplace 0 (by omega) _ rfl, hplace 1 (by omega) _ rfl,
    hplace 2 (by omega) _ htwo, h⟩

end ConfiguredPredicates
