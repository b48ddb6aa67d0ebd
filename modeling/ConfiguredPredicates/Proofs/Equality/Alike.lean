import ConfiguredPredicates.Predicate.Basic
import Mathlib.Data.List.Forall2

/-!
Equality by value, layer by layer. `==` of trees, of predicates and of conditions holds
when both are of one kind and their parts are equal in turn, list by list and key by key.
What is equal as a predicate is equal as a tree. Everything is equal to itself: only a
float could fail to be, and those that a number may hold are finite.
-/

namespace ConfiguredPredicates

section
variable {α : Type} [BEq α]

/-- Whatever compares two lists head by head. -/
theorem iff_forall₂_of_steps {compare : List α → List α → Bool} (hnil : compare [] [] = true)
    (hleft : ∀ a as, compare (a :: as) [] = false) (hright : ∀ b bs, compare [] (b :: bs) = false)
    (hcons : ∀ a as b bs, compare (a :: as) (b :: bs) = (a == b && compare as bs))
    {as bs : List α} : compare as bs = true ↔ List.Forall₂ (· == ·) as bs := by
  induction as generalizing bs with
  | nil => cases bs <;> simp [hnil, hright]
  | cons a as ih => cases bs <;> simp [hleft, hcons, ih]

theorem beq_iff_forall₂ {as bs : List α} : as == bs ↔ List.Forall₂ (· == ·) as bs :=
  iff_forall₂_of_steps rfl (fun _ _ => rfl) (fun _ _ => rfl) fun _ _ _ _ => rfl

theorem entry_beq_iff {a b : String × α} : a == b ↔ a.1 = b.1 ∧ a.2 == b.2 := by
  simp [BEq.beq]

end

namespace Entries

variable {α : Type} [BEq α] {es fs : List (String × α)}

theorem keys_eq_of_forall₂ (h : List.Forall₂ (· == ·) es fs) : keys es = keys fs := by
  induction h with
  | nil => rfl
  | cons hhead _ ih => simpa [keys] using ⟨(entry_beq_iff.1 hhead).1, ih⟩

-- Where the new entry goes depends on the keys alone, and those are the same on both sides.
theorem forall₂_insert (key : String) {a b : α} (hab : a == b)
    (h : List.Forall₂ (· == ·) es fs) :
    List.Forall₂ (· == ·) (insert key a es) (insert key b fs) := by
  have hentry : (key, a) == (key, b) := entry_beq_iff.2 ⟨rfl, hab⟩
  induction h with
  | nil => exact .cons hentry .nil
  | @cons e f _ _ hhead hrest ih =>
    obtain ⟨k, _⟩ := e
    obtain ⟨_, _⟩ := f
    obtain rfl : k = _ := (entry_beq_iff.1 hhead).1
    rw [insert, insert]
    split
    · exact .cons hentry (.cons hhead hrest)
    · split
      · exact .cons hentry hrest
      · exact .cons hhead ih

theorem forall₂_ofList (h : List.Forall₂ (· == ·) es fs) :
    List.Forall₂ (· == ·) (ofList es) (ofList fs) := by
  suffices hfold : ∀ entered others : List (String × α), List.Forall₂ (· == ·) entered others →
      List.Forall₂ (· == ·) (es.foldl (fun all entry => insert entry.1 entry.2 all) entered)
        (fs.foldl (fun all entry => insert entry.1 entry.2 all) others) from
    hfold [] [] .nil
  induction h with
  | nil => exact fun _ _ h => h
  | cons hhead _ ih =>
    intro entered others hentered
    obtain ⟨hkey, hvalue⟩ := entry_beq_iff.1 hhead
    refine ih _ _ ?_
    simp only [hkey]
    exact forall₂_insert _ hvalue hentered

end Entries

namespace Json

theorem equalItems_iff {vs ws : List Json} :
    equalItems vs ws = true ↔ List.Forall₂ (· == ·) vs ws :=
  iff_forall₂_of_steps rfl (fun _ _ => rfl) (fun _ _ => rfl) fun _ _ _ _ => rfl

theorem equalMembers_iff {ms ns : List (String × Json)} :
    equalMembers ms ns = true ↔ List.Forall₂ (· == ·) ms ns :=
  iff_forall₂_of_steps rfl (fun _ _ => rfl) (fun _ _ => rfl) fun _ _ _ _ => rfl

inductive Alike : Json → Json → Prop
  | null : Alike .null .null
  | bool (b : Bool) : Alike (.bool b) (.bool b)
  | number {m n : Number} : m == n → Alike (.number m) (.number n)
  | string (s : String) : Alike (.string s) (.string s)
  | array {vs ws : List Json} : List.Forall₂ (· == ·) vs ws → Alike (.array vs) (.array ws)
  | object {ms ns : List (String × Json)} : List.Forall₂ (· == ·) ms ns →
      Alike (.object ms) (.object ns)

theorem beq_iff_alike {v w : Json} : v == w ↔ Alike v w := by
  constructor
  · intro h
    change equal v w = true at h
    cases v <;> cases w <;> simp only [equal, beq_iff_eq, Bool.false_eq_true] at h
    case null.null => exact .null
    case bool.bool => exact h ▸ .bool _
    case number.number => exact .number h
    case string.string => exact h ▸ .string _
    case array.array => exact .array (equalItems_iff.1 h)
    case object.object => exact .object (equalMembers_iff.1 h)
  · intro h
    change equal v w = true
    cases h with
    | null => rw [equal]
    | bool b => rw [equal, beq_self_eq_true]
    | number h => rwa [equal]
    | string s => rw [equal, beq_self_eq_true]
    | array h => rw [equal, equalItems_iff.2 h]
    | object h => rw [equal, equalMembers_iff.2 h]

end Json

namespace Operator

theorem apply_beq (op : Operator) {v w : Json} (h : v == w) : op.apply v == op.apply w :=
  Json.beq_iff_alike.2 (.object (.cons (entry_beq_iff.2 ⟨rfl, h⟩) .nil))

theorem apply_array_beq (op : Operator) {vs ws : List Json}
    (h : List.Forall₂ (· == ·) vs ws) : op.apply (.array vs) == op.apply (.array ws) :=
  op.apply_beq (Json.beq_iff_alike.2 (.array h))

end Operator

namespace Predicate

theorem equalLists_iff {ps qs : List Predicate} :
    equalLists ps qs = true ↔ List.Forall₂ (· == ·) ps qs :=
  iff_forall₂_of_steps (by simp [equalLists]) (by simp [equalLists])
    (by simp [equalLists]) fun _ _ _ _ => by rw [equalLists]; rfl

theorem equalProperties_iff {as bs : List (String × Condition)} :
    equalProperties as bs = true ↔ List.Forall₂ (· == ·) as bs :=
  iff_forall₂_of_steps (by simp [equalProperties]) (by simp [equalProperties])
    (by simp [equalProperties]) fun _ _ _ _ => by rw [equalProperties]; rfl

inductive Alike : Predicate → Predicate → Prop
  | expression {as bs : List (String × Condition)} : List.Forall₂ (· == ·) as bs →
      Alike (.expression as) (.expression bs)
  | all {ps qs : List Predicate} : List.Forall₂ (· == ·) ps qs → Alike (.all ps) (.all qs)
  | any {ps qs : List Predicate} : List.Forall₂ (· == ·) ps qs → Alike (.any ps) (.any qs)
  | not {p q : Predicate} : p == q → Alike (.not p) (.not q)
  | primitive {a b : Primitive} : a == b → Alike (.primitive a) (.primitive b)

theorem beq_iff_alike {p q : Predicate} : p == q ↔ Alike p q := by
  constructor
  · intro h
    change p.equal q = true at h
    cases p <;> cases q <;> simp only [equal, Bool.false_eq_true] at h
    case expression.expression => exact .expression (equalProperties_iff.1 h)
    case all.all => exact .all (equalLists_iff.1 h)
    case any.any => exact .any (equalLists_iff.1 h)
    case not.not => exact .not h
    case primitive.primitive => exact .primitive h
  · intro h
    change p.equal q = true
    cases h with
    | expression h => rw [equal, equalProperties_iff.2 h]
    | all h => rw [equal, equalLists_iff.2 h]
    | any h => rw [equal, equalLists_iff.2 h]
    | not h => rwa [equal]
    | primitive h => rwa [equal]

end Predicate

namespace Condition

inductive Alike : Condition → Condition → Prop
  | primitive {a b : Primitive} : a == b → Alike (.primitive a) (.primitive b)
  | present (expected : Bool) : Alike (.present expected) (.present expected)
  | oneOf {as bs : List Primitive} : List.Forall₂ (· == ·) as bs → Alike (.oneOf as) (.oneOf bs)
  | contains {p q : Predicate} : p == q → Alike (.contains p) (.contains q)

theorem beq_iff_alike {c d : Condition} : c == d ↔ Alike c d := by
  constructor
  · intro h
    change c.equal d = true at h
    cases c <;> cases d <;> simp only [equal, beq_iff_eq, Bool.false_eq_true] at h
    case primitive.primitive => exact .primitive h
    case present.present => exact h ▸ .present _
    case oneOf.oneOf => exact .oneOf (beq_iff_forall₂.1 h)
    case contains.contains => exact .contains h
  · intro h
    change c.equal d = true
    cases h with
    | primitive h => rwa [equal]
    | present expected => rw [equal, beq_self_eq_true]
    | oneOf h => rw [equal, beq_iff_forall₂.2 h]
    | contains h => rwa [equal]

end Condition

theorem Primitive.toJson_beq {a b : Primitive} (h : a == b) : a.toJson == b.toJson := by
  cases a <;> cases b <;> exact h

theorem Primitive.beq_of_ofJson? {v w : Json} {a b : Primitive} (h : v == w)
    (ha : Primitive.ofJson? v = some a) (hb : Primitive.ofJson? w = some b) : a == b := by
  cases v <;> cases ha <;> cases w <;> cases hb <;> exact h

mutual
/-- Equal predicates are written as equal trees. -/
theorem Predicate.toJson_beq : (p : Predicate) → {q : Predicate} → p == q → p.toJson == q.toJson
  | .expression as, _, h => by
    cases Predicate.beq_iff_alike.1 h with
    | expression hproperties =>
      have hmembers := Predicate.propertiesToJson_beq as hproperties
      rw [Predicate.toJson, Predicate.toJson]
      exact Json.beq_iff_alike.2 (.object (Entries.forall₂_ofList hmembers))
  | .all ps, _, h => by
    cases Predicate.beq_iff_alike.1 h with
    | all hoperands =>
      rw [Predicate.toJson, Predicate.toJson]
      exact Operator.apply_array_beq _ (Predicate.listToJson_beq ps hoperands)
  | .any ps, _, h => by
    cases Predicate.beq_iff_alike.1 h with
    | any hoperands =>
      rw [Predicate.toJson, Predicate.toJson]
      exact Operator.apply_array_beq _ (Predicate.listToJson_beq ps hoperands)
  | .not p, _, h => by
    cases Predicate.beq_iff_alike.1 h with
    | not hoperand =>
      rw [Predicate.toJson, Predicate.toJson]
      exact Operator.apply_beq _ (Predicate.toJson_beq p hoperand)
  | .primitive a, _, h => by
    cases Predicate.beq_iff_alike.1 h with
    | primitive hprimitive =>
      rw [Predicate.toJson, Predicate.toJson]
      exact Primitive.toJson_beq hprimitive

theorem Predicate.listToJson_beq : (ps : List Predicate) → {qs : List Predicate} →
    List.Forall₂ (· == ·) ps qs →
    List.Forall₂ (· == ·) (Predicate.listToJson ps) (Predicate.listToJson qs)
  | [], _, .nil => .nil
  | p :: ps, _, .cons hhead hrest =>
    .cons (Predicate.toJson_beq p hhead) (Predicate.listToJson_beq ps hrest)

theorem Predicate.propertiesToJson_beq : (as : List (String × Condition)) →
    {bs : List (String × Condition)} → List.Forall₂ (· == ·) as bs →
    List.Forall₂ (· == ·) (Predicate.propertiesToJson as) (Predicate.propertiesToJson bs)
  | [], _, .nil => .nil
  | (_, c) :: as, (_, _) :: _, .cons hhead hrest =>
    have hkey := (entry_beq_iff.1 hhead).1
    have hvalue := Condition.toJson_beq c (entry_beq_iff.1 hhead).2
    .cons (entry_beq_iff.2 ⟨hkey, hvalue⟩) (Predicate.propertiesToJson_beq as hrest)

theorem Condition.toJson_beq : (c : Condition) → {d : Condition} → c == d → c.toJson == d.toJson
  | .primitive a, _, h => by
    cases Condition.beq_iff_alike.1 h with
    | primitive hprimitive =>
      rw [Condition.toJson, Condition.toJson]
      exact Primitive.toJson_beq hprimitive
  | .present expected, _, h => by
    cases Condition.beq_iff_alike.1 h
    rw [Condition.toJson]
    exact Operator.apply_beq _ (Json.beq_iff_alike.2 (.bool expected))
  | .oneOf choices, _, h => by
    cases Condition.beq_iff_alike.1 h with
    | oneOf hchoices =>
      rw [Condition.toJson, Condition.toJson]
      refine Operator.apply_array_beq _ ?_
      rw [List.forall₂_map_left_iff, List.forall₂_map_right_iff]
      exact hchoices.imp fun _ _ => Primitive.toJson_beq
  | .contains p, _, h => by
    cases Condition.beq_iff_alike.1 h with
    | contains helement =>
      rw [Condition.toJson, Condition.toJson]
      exact Operator.apply_beq _ (Predicate.toJson_beq p helement)
end

theorem FiniteFloat.beq_self (x : FiniteFloat) : x.value == x.value := by
  obtain ⟨value, hfinite⟩ := x
  change value.toModel.unpack.isFinite = true at hfinite
  change value.toModel.unpack.beq value.toModel.unpack = true
  cases hunpack : value.toModel.unpack with
  | infinity | notANumber =>
    rw [hunpack] at hfinite
    cases hfinite
  | zero => rfl
  | finite sign mantissa exponent =>
    have hsame : (compare exponent exponent).then (compare mantissa mantissa) = .eq := by simp
    cases sign with
    | negative => exact congrArg (fun order => some order.swap == some .eq) hsame
    | positive => exact congrArg (fun order => some order == some .eq) hsame

theorem Primitive.beq_self : (p : Primitive) → p == p
  | .string s => beq_self_eq_true s
  | .number (.whole n) => beq_self_eq_true n.value
  | .number (.float x) => x.beq_self
  | .bool b => beq_self_eq_true b

mutual
theorem Predicate.beq_self : (p : Predicate) → p == p
  | .expression properties =>
    Predicate.beq_iff_alike.2 (.expression (Predicate.properties_beq_self properties))
  | .all operands => Predicate.beq_iff_alike.2 (.all (Predicate.list_beq_self operands))
  | .any operands => Predicate.beq_iff_alike.2 (.any (Predicate.list_beq_self operands))
  | .not operand => Predicate.beq_iff_alike.2 (.not operand.beq_self)
  | .primitive p => Predicate.beq_iff_alike.2 (.primitive p.beq_self)

theorem Predicate.list_beq_self :
    (operands : List Predicate) → List.Forall₂ (· == ·) operands operands
  | [] => .nil
  | p :: rest => .cons p.beq_self (Predicate.list_beq_self rest)

theorem Predicate.properties_beq_self :
    (properties : List (String × Condition)) → List.Forall₂ (· == ·) properties properties
  | [] => .nil
  | (_, c) :: rest =>
    .cons (entry_beq_iff.2 ⟨rfl, c.beq_self⟩) (Predicate.properties_beq_self rest)

theorem Condition.beq_self : (c : Condition) → c == c
  | .primitive p => Condition.beq_iff_alike.2 (.primitive p.beq_self)
  | .present expected => Condition.beq_iff_alike.2 (.present expected)
  | .oneOf _ =>
    Condition.beq_iff_alike.2 (.oneOf (List.forall₂_same.2 fun p _ => p.beq_self))
  | .contains element => Condition.beq_iff_alike.2 (.contains element.beq_self)
end

end ConfiguredPredicates
