import ConfiguredPredicates.Config.View
import ConfiguredPredicates.Proofs.Positions

/-!
Walks down a tree along names, told by the nodes that the names lead to. A walk is
blocked at a node that has no members to go on with, vanishes at a missing member or
a null, or arrives at a value. The result of a walk says which of the three it is.
-/

namespace ConfiguredPredicates

namespace Json

def along? (tree : Json) (names : List String) : Option Json := tree.at? (names.map .key)

/-- Names behind `front` go on at a node that is neither an object nor null. -/
def Blocked (tree : Json) (names front : List String) (kind : Kind) : Prop :=
  (∃ next back, names = front ++ next :: back) ∧
    ∃ node, tree.along? front = some node ∧ node.kind = kind ∧ kind ≠ .object ∧ kind ≠ .null

/-- The way along names comes to an object without the next member, or to a null. -/
def Vanishes (tree : Json) (names : List String) : Prop :=
  (∃ front next back members, names = front ++ next :: back ∧
    tree.along? front = some (.object members) ∧ members.lookup next = none) ∨
  ∃ front back, names = front ++ back ∧ tree.along? front = some .null

/-- Names lead to a node, and it is not null. -/
def Arrives (tree : Json) (names : List String) (node : Json) : Prop :=
  tree.along? names = some node ∧ node ≠ .null

@[simp] theorem along?_nil (tree : Json) : tree.along? [] = some tree := rfl

@[simp] theorem along?_object (members : List (String × Json)) (name : String)
    (rest : List String) :
    (object members).along? (name :: rest) = (members.lookup name).bind (·.along? rest) := rfl

theorem ordered_of_at? {path : List Segment} {tree node : Json} (htree : tree.Ordered)
    (h : tree.at? path = some node) : node.Ordered := by
  induction path generalizing tree with
  | nil =>
    cases h
    exact htree
  | cons step rest ih =>
    cases step with
    | key name =>
      cases tree with
      | object members =>
        obtain ⟨child, hlookup, hchild⟩ := Option.bind_eq_some_iff.1 h
        obtain ⟨_, _, rfl, _⟩ := List.lookup_eq_some_iff.1 hlookup
        exact ih (htree.of_member (name, child) (by simp)) hchild
      | null | bool | number | string | array => cases h
    | index position =>
      cases tree with
      | array items =>
        obtain ⟨child, hitem, hchild⟩ := Option.bind_eq_some_iff.1 h
        exact ih (htree.of_item child (List.mem_of_getElem? hitem)) hchild
      | null | bool | number | string | object => cases h

theorem along?_of_kind_ne {tree : Json} (hkind : tree.kind ≠ .object) (name : String)
    (rest : List String) : tree.along? (name :: rest) = none := by
  cases tree <;> first | rfl | exact absurd rfl hkind

theorem present?_eq_none_iff {v : Json} : v.present? = none ↔ v = .null := by
  cases v <;> simp [present?]

theorem present?_eq_some_iff {v node : Json} :
    v.present? = some node ↔ v = node ∧ node ≠ .null := by
  cases v <;> simp +contextual [present?, eq_comm]

theorem not_blocked_nil {tree : Json} {front : List String} {kind : Kind} :
    ¬ tree.Blocked [] front kind := by
  rintro ⟨⟨next, back, hnames⟩, -⟩
  simp at hnames

theorem blocked_object {members : List (String × Json)} {name : String} {rest front : List String}
    {kind : Kind} :
    (object members).Blocked (name :: rest) front kind ↔
      ∃ child, members.lookup name = some child ∧ ∃ tail, front = name :: tail ∧
        child.Blocked rest tail kind := by
  constructor
  · rintro ⟨⟨next, back, hnames⟩, node, halong, hkind, hobject, hnull⟩
    cases front with
    | nil =>
      cases halong
      exact absurd hkind.symm hobject
    | cons first tail =>
      obtain ⟨rfl, hrest⟩ := List.cons.inj hnames
      obtain ⟨child, hlookup, hchild⟩ := Option.bind_eq_some_iff.1 halong
      exact ⟨child, hlookup, tail, rfl, ⟨next, back, hrest⟩, node, hchild, hkind, hobject, hnull⟩
  · rintro ⟨child, hlookup, tail, rfl, ⟨next, back, rfl⟩, node, hchild, hnode⟩
    exact ⟨⟨next, back, rfl⟩, node, by simp [hlookup, hchild], hnode⟩

theorem blocked_of_kind_ne {tree : Json} (hkind : tree.kind ≠ .object) {name : String}
    {rest front : List String} {kind : Kind} :
    tree.Blocked (name :: rest) front kind ↔ front = [] ∧ kind = tree.kind ∧ kind ≠ .null := by
  constructor
  · rintro ⟨-, node, halong, rfl, -, hnull⟩
    cases front with
    | nil =>
      cases halong
      exact ⟨rfl, rfl, hnull⟩
    | cons first tail => simp [along?_of_kind_ne hkind] at halong
  · rintro ⟨rfl, rfl, hnull⟩
    exact ⟨⟨name, rest, rfl⟩, tree, rfl, rfl, hkind, hnull⟩

theorem vanishes_nil {tree : Json} : tree.Vanishes [] ↔ tree = .null := by
  simp [Vanishes]

theorem vanishes_object {members : List (String × Json)} {name : String} {rest : List String} :
    (object members).Vanishes (name :: rest) ↔
      ∀ child, members.lookup name = some child → child.Vanishes rest := by
  constructor
  · rintro (⟨front, next, back, inner, hnames, halong, hmissing⟩ | ⟨front, back, hnames, halong⟩)
      child hlookup
    · cases front with
      | nil =>
        cases halong
        obtain ⟨rfl, -⟩ := List.cons.inj hnames
        simp [hlookup] at hmissing
      | cons first tail =>
        obtain ⟨rfl, hrest⟩ := List.cons.inj hnames
        simp only [along?_object, hlookup, Option.bind_some] at halong
        exact .inl ⟨tail, next, back, inner, hrest, halong, hmissing⟩
    · cases front with
      | nil => cases halong
      | cons first tail =>
        obtain ⟨rfl, hrest⟩ := List.cons.inj hnames
        simp only [along?_object, hlookup, Option.bind_some] at halong
        exact .inr ⟨tail, back, hrest, halong⟩
  · intro h
    cases hlookup : members.lookup name with
    | none => exact .inl ⟨[], name, rest, members, rfl, rfl, hlookup⟩
    | some child =>
      rcases h child hlookup with ⟨front, next, back, inner, rfl, halong, hmissing⟩ |
        ⟨front, back, rfl, halong⟩
      · exact .inl ⟨name :: front, next, back, inner, rfl, by simp [hlookup, halong], hmissing⟩
      · exact .inr ⟨name :: front, back, rfl, by simp [hlookup, halong]⟩

theorem vanishes_of_kind_ne {tree : Json} (hkind : tree.kind ≠ .object) {name : String}
    {rest : List String} : tree.Vanishes (name :: rest) ↔ tree = .null := by
  constructor
  · rintro (⟨front, next, back, inner, hnames, halong, hmissing⟩ | ⟨front, back, hnames, halong⟩)
    · cases front with
      | nil =>
        cases halong
        exact absurd rfl hkind
      | cons first tail => simp [along?_of_kind_ne hkind] at halong
    · cases front with
      | nil => exact Option.some.inj halong
      | cons first tail => simp [along?_of_kind_ne hkind] at halong
  · rintro rfl
    exact .inr ⟨[], name :: rest, rfl, rfl⟩

theorem eq_object_or_kind_ne (v : Json) : (∃ members, v = .object members) ∨ v.kind ≠ .object := by
  cases v <;> simp [kind]

theorem walk_of_kind_ne {tree : Json} (hkind : tree.kind ≠ .object) (passed : List String)
    (name : String) (rest : List String) :
    walk passed (name :: rest) tree =
      if tree.kind = .null then .ok none else .error (.wrongType passed tree.kind) := by
  cases tree <;> first | rfl | exact absurd rfl hkind

variable {passed names : List String} {tree : Json}

theorem walk_eq_error_iff {e : ConfigError} :
    walk passed names tree = .error e ↔
      ∃ front kind, tree.Blocked names front kind ∧ e = .wrongType (passed ++ front) kind := by
  induction names generalizing passed tree with
  | nil => simp [walk, not_blocked_nil]
  | cons name rest ih =>
    rcases eq_object_or_kind_ne tree with ⟨members, rfl⟩ | hkind
    · simp only [walk, blocked_object]
      cases hlookup : members.lookup name with
      | none => simp
      | some child =>
        simp only [ih, Option.some.injEq, exists_eq_left']
        constructor
        · rintro ⟨tail, kind, hblocked, rfl⟩
          exact ⟨name :: tail, kind, ⟨tail, rfl, hblocked⟩, by simp⟩
        · rintro ⟨_, kind, ⟨tail, rfl, hblocked⟩, rfl⟩
          exact ⟨tail, kind, hblocked, by simp⟩
    · simp only [walk_of_kind_ne hkind, blocked_of_kind_ne hkind]
      split
      · next hnull => simp +contextual [hnull]
      · next hnull =>
        constructor
        · rintro h
          cases h
          exact ⟨[], tree.kind, ⟨rfl, rfl, hnull⟩, by simp⟩
        · rintro ⟨_, _, ⟨rfl, rfl, -⟩, rfl⟩
          simp

theorem walk_eq_ok_none_iff : walk passed names tree = .ok none ↔ tree.Vanishes names := by
  induction names generalizing passed tree with
  | nil => simp [walk, vanishes_nil, present?_eq_none_iff]
  | cons name rest ih =>
    rcases eq_object_or_kind_ne tree with ⟨members, rfl⟩ | hkind
    · simp only [walk, vanishes_object]
      cases hlookup : members.lookup name with
      | none => simp
      | some child => simp [ih]
    · rw [walk_of_kind_ne hkind, vanishes_of_kind_ne hkind, ← kind_eq_null_iff]
      split <;> simp [*]

theorem walk_eq_ok_some_iff {node : Json} :
    walk passed names tree = .ok (some node) ↔ tree.Arrives names node := by
  induction names generalizing passed tree with
  | nil => simp +contextual [walk, Arrives, present?_eq_some_iff]
  | cons name rest ih =>
    rcases eq_object_or_kind_ne tree with ⟨members, rfl⟩ | hkind
    · simp only [walk, Arrives, along?_object]
      cases hlookup : members.lookup name with
      | none => simp
      | some child => simp [ih, Arrives]
    · rw [walk_of_kind_ne hkind, Arrives, along?_of_kind_ne hkind]
      split <;> simp

end Json

end ConfiguredPredicates
