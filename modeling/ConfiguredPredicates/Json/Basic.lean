import ConfiguredPredicates.Entries

/-!
JSON numbers and trees. A number is whole, within the range that text keeps exact, or a
finite floating-point value, and the two kinds are never equal to each other.

Objects are entry lists. `canonical` sorts the members of every object at every
depth and keeps the last of several with one key: all trees that are read are
canonical. `==` compares numbers by value, so it identifies the two floating-point
zeros, which print differently; `=` tells them apart.
-/

namespace ConfiguredPredicates

structure WholeNumber where
  value : Int
  lower : -0x8000000000000000 ≤ value
  upper : value < 0x10000000000000000
deriving DecidableEq

structure FiniteFloat where
  value : Float
  finite : value.isFinite = true

inductive Number where
  | whole (n : WholeNumber)
  | float (x : FiniteFloat)

namespace Number

def ofInt? (value : Int) : Option Number :=
  if h : -0x8000000000000000 ≤ value ∧ value < 0x10000000000000000 then
    some (.whole ⟨value, h.1, h.2⟩)
  else none

def ofFloat? (value : Float) : Option Number :=
  if h : value.isFinite = true then some (.float ⟨value, h⟩) else none

def equal : Number → Number → Bool
  | .whole a, .whole b => a.value == b.value
  | .float x, .float y => x.value == y.value
  | _, _ => false

instance : BEq Number := ⟨equal⟩

theorem ofInt?_value (n : WholeNumber) : ofInt? n.value = some (.whole n) :=
  dif_pos ⟨n.lower, n.upper⟩

theorem ofFloat?_value (x : FiniteFloat) : ofFloat? x.value = some (.float x) :=
  dif_pos x.finite

end Number

inductive Json where
  | null
  | bool (b : Bool)
  | number (n : Number)
  | string (s : String)
  | array (items : List Json)
  | object (members : List (String × Json))

instance : Inhabited Json := ⟨.null⟩

namespace Json

inductive Kind where
  | null
  | boolean
  | number
  | string
  | array
  | object
deriving DecidableEq, Repr

def Kind.name : Kind → String
  | .null => "null"
  | .boolean => "boolean"
  | .number => "number"
  | .string => "string"
  | .array => "array"
  | .object => "object"

def kind : Json → Kind
  | .null => .null
  | .bool _ => .boolean
  | .number _ => .number
  | .string _ => .string
  | .array _ => .array
  | .object _ => .object

theorem kind_eq_null_iff {v : Json} : v.kind = .null ↔ v = .null := by
  cases v <;> simp [kind]

theorem kind_eq_boolean_iff {v : Json} : v.kind = .boolean ↔ ∃ b, v = .bool b := by
  cases v <;> simp [kind]

theorem kind_eq_array_iff {v : Json} : v.kind = .array ↔ ∃ items, v = .array items := by
  cases v <;> simp [kind]

mutual
def equal : Json → Json → Bool
  | .null, .null => true
  | .bool a, .bool b => a == b
  | .number a, .number b => a == b
  | .string a, .string b => a == b
  | .array as, .array bs => equalItems as bs
  | .object as, .object bs => equalMembers as bs
  | _, _ => false

def equalItems : List Json → List Json → Bool
  | [], [] => true
  | a :: as, b :: bs => equal a b && equalItems as bs
  | _, _ => false

def equalMembers : List (String × Json) → List (String × Json) → Bool
  | [], [] => true
  | (k, a) :: as, (l, b) :: bs => k == l && equal a b && equalMembers as bs
  | _, _ => false
end

instance : BEq Json := ⟨equal⟩

mutual
/-- Members of every object in key order, the last of equal keys kept. -/
def canonical : Json → Json
  | .array items => .array (canonicalItems items)
  | .object members => .object (Entries.ofList (canonicalMembers members))
  | scalar => scalar

def canonicalItems : List Json → List Json
  | [] => []
  | item :: rest => canonical item :: canonicalItems rest

def canonicalMembers : List (String × Json) → List (String × Json)
  | [] => []
  | (key, value) :: rest => (key, canonical value) :: canonicalMembers rest
end

/-- Every object at every depth has strictly increasing keys. -/
inductive Ordered : Json → Prop
  | null : Ordered .null
  | bool (b : Bool) : Ordered (.bool b)
  | number (n : Number) : Ordered (.number n)
  | string (s : String) : Ordered (.string s)
  | array {items : List Json} : (∀ item ∈ items, Ordered item) → Ordered (.array items)
  | object {members : List (String × Json)} : Entries.Sorted members →
      (∀ member ∈ members, Ordered member.2) → Ordered (.object members)

theorem Ordered.of_item {items : List Json} (h : Ordered (.array items)) :
    ∀ item ∈ items, Ordered item := by
  cases h with
  | array h => exact h

theorem Ordered.of_member {members : List (String × Json)} (h : Ordered (.object members)) :
    ∀ member ∈ members, Ordered member.2 := by
  cases h with
  | object _ h => exact h

theorem Ordered.sorted {members : List (String × Json)} (h : Ordered (.object members)) :
    Entries.Sorted members := by
  cases h with
  | object h _ => exact h

mutual
/-- The length of the longest chain of arrays and objects inside each other. -/
def nesting : Json → Nat
  | .array items => nestingItems items + 1
  | .object members => nestingMembers members + 1
  | _ => 0

def nestingItems : List Json → Nat
  | [] => 0
  | item :: rest => max (nesting item) (nestingItems rest)

def nestingMembers : List (String × Json) → Nat
  | [] => 0
  | (_, value) :: rest => max (nesting value) (nestingMembers rest)
end

theorem nestingItems_le_iff {items : List Json} {n : Nat} :
    nestingItems items ≤ n ↔ ∀ item ∈ items, item.nesting ≤ n := by
  induction items with
  | nil => simp [nestingItems]
  | cons item rest ih => rw [nestingItems, Nat.max_le, ih, List.forall_mem_cons]

theorem nestingMembers_le_iff {members : List (String × Json)} {n : Nat} :
    nestingMembers members ≤ n ↔ ∀ member ∈ members, member.2.nesting ≤ n := by
  induction members with
  | nil => simp [nestingMembers]
  | cons member rest ih =>
    obtain ⟨key, value⟩ := member
    rw [nestingMembers, Nat.max_le, ih, List.forall_mem_cons]

def member? (key : String) : Json → Option Json
  | .object members => members.lookup key
  | _ => none

/-- An explicit null counts as no value. -/
def present? : Json → Option Json
  | .null => none
  | value => some value

theorem ordered_insert {key : String} {value : Json} {members : List (String × Json)}
    (hv : Ordered value) (hm : ∀ member ∈ members, Ordered member.2) :
    ∀ member ∈ Entries.insert key value members, Ordered member.2 := by
  intro member hmem
  rcases Entries.mem_insert hmem with rfl | hmem
  · exact hv
  · exact hm member hmem

theorem ordered_ofList {members : List (String × Json)}
    (hm : ∀ member ∈ members, Ordered member.2) :
    Ordered (.object (Entries.ofList members)) := by
  refine .object (Entries.sorted_ofList members) ?_
  suffices h : ∀ entries : List (String × Json), (∀ member ∈ entries, Ordered member.2) →
      ∀ member ∈ members.foldl (fun entries pair => Entries.insert pair.1 pair.2 entries) entries,
        Ordered member.2 from h [] (by simp)
  induction members with
  | nil => exact fun _ h => h
  | cons pair rest ih =>
    refine fun entries h => ih (fun m hm' => hm m (List.mem_cons_of_mem _ hm')) _ ?_
    exact ordered_insert (hm pair List.mem_cons_self) h

mutual
theorem ordered_canonical : (v : Json) → Ordered (canonical v)
  | .null => .null
  | .bool b => .bool b
  | .number n => .number n
  | .string s => .string s
  | .array items => .array (ordered_canonicalItems items)
  | .object members => ordered_ofList (ordered_canonicalMembers members)

theorem ordered_canonicalItems : (items : List Json) →
    ∀ item ∈ canonicalItems items, Ordered item
  | [] => by simp [canonicalItems]
  | item :: rest => by
    simp only [canonicalItems, List.mem_cons, forall_eq_or_imp]
    exact ⟨ordered_canonical item, ordered_canonicalItems rest⟩

theorem ordered_canonicalMembers : (members : List (String × Json)) →
    ∀ member ∈ canonicalMembers members, Ordered member.2
  | [] => by simp [canonicalMembers]
  | (key, value) :: rest => by
    simp only [canonicalMembers, List.mem_cons, forall_eq_or_imp]
    exact ⟨ordered_canonical value, ordered_canonicalMembers rest⟩
end

end Json

end ConfiguredPredicates
