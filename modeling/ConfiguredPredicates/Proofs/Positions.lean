import ConfiguredPredicates.Predicate.Violation

/-!
The positions of a tree that a predicate or condition is read from, apart from how it
is read. A position has what is expected there, its depth and its node. Depth grows
towards operands that are predicates and towards values of properties, and nowhere
else. A path that leads from position to position also leads from node to node.
-/

namespace ConfiguredPredicates

namespace Json

def at? : List Segment → Json → Option Json
  | [], v => some v
  | .key name :: rest, .object members => (members.lookup name).bind (at? rest)
  | .index position :: rest, .array items => items[position]?.bind (at? rest)
  | _ :: _, _ => none

theorem at?_append (front back : List Segment) (v : Json) :
    at? (front ++ back) v = (at? front v).bind (at? back) := by
  induction front generalizing v with
  | nil => rfl
  | cons step rest ih =>
    have hrest : at? (rest ++ back) = fun v => (at? rest v).bind (at? back) := funext ih
    cases step <;> cases v <;> simp [at?, hrest, Option.bind_assoc]

end Json

structure Position where
  wanted : Expectation
  depth : Nat
  node : Json

namespace Position

/-- One step down, by a property, by an operator alone in its object, or by an index. -/
inductive Step : Position → Segment → Position → Prop
  | property {depth : Nat} {members : List (String × Json)} {name : String} {value : Json} :
      (∀ member ∈ members, isOperatorKey member.1 = false) → (name, value) ∈ members →
      Step ⟨.predicate, depth, .object members⟩ (.key name) ⟨.condition, depth + 1, value⟩
  | operands {depth : Nat} {name : String} {operand : Json} : name = "$all" ∨ name = "$any" →
      Step ⟨.predicate, depth, .object [(name, operand)]⟩ (.key name) ⟨.predicates, depth, operand⟩
  | operand {depth : Nat} {items : List Json} {position : Nat} {v : Json} :
      items[position]? = some v →
      Step ⟨.predicates, depth, .array items⟩ (.index position) ⟨.predicate, depth + 1, v⟩
  | not {depth : Nat} {name : String} {operand : Json} : name = "$not" →
      Step ⟨.predicate, depth, .object [(name, operand)]⟩ (.key name)
        ⟨.predicate, depth + 1, operand⟩
  | present {depth : Nat} {name : String} {operand : Json} : name = "$exists" →
      Step ⟨.condition, depth, .object [(name, operand)]⟩ (.key name) ⟨.boolean, depth, operand⟩
  | oneOf {depth : Nat} {name : String} {operand : Json} : name = "$in" →
      Step ⟨.condition, depth, .object [(name, operand)]⟩ (.key name) ⟨.primitives, depth, operand⟩
  | choice {depth : Nat} {items : List Json} {position : Nat} {v : Json} :
      items[position]? = some v →
      Step ⟨.primitives, depth, .array items⟩ (.index position) ⟨.primitive, depth, v⟩
  | contains {depth : Nat} {name : String} {operand : Json} : name = "$contains" →
      Step ⟨.condition, depth, .object [(name, operand)]⟩ (.key name)
        ⟨.predicate, depth + 1, operand⟩

inductive Leads : Position → List Segment → Position → Prop
  | here (position : Position) : Leads position [] position
  | step {start next goal : Position} {first : Segment} {rest : List Segment} :
      Step start first next → Leads next rest goal → Leads start (first :: rest) goal

theorem Step.ordered {start next : Position} {step : Segment} (h : Step start step next)
    (hstart : start.node.Ordered) : next.node.Ordered := by
  cases h with
  | property _ hmem => exact hstart.of_member _ hmem
  | operand hitem | choice hitem => exact hstart.of_item _ (List.mem_of_getElem? hitem)
  | operands | not | present | oneOf | contains => exact hstart.of_member _ List.mem_cons_self

theorem Step.at? {start next : Position} {step : Segment} (h : Step start step next)
    (hstart : start.node.Ordered) : start.node.at? [step] = some next.node := by
  cases h with
  | property _ hmem => simp [Json.at?, Entries.lookup_of_mem hstart.sorted hmem]
  | operand hitem | choice hitem => simp [Json.at?, hitem]
  | operands | not | present | oneOf | contains => simp [Json.at?]

theorem not_plain_sole {name : String} {operand : Json} (hname : isOperatorKey name = true) :
    ¬ ∀ member ∈ [(name, operand)], isOperatorKey member.1 = false := by
  intro hplain
  have hkey : isOperatorKey name = false := hplain (name, operand) List.mem_cons_self
  rw [hname] at hkey
  cases hkey

theorem not_plain_operands {name : String} {operand : Json}
    (hname : name = "$all" ∨ name = "$any") :
    ¬ ∀ member ∈ [(name, operand)], isOperatorKey member.1 = false := by
  rcases hname with rfl | rfl
  · exact not_plain_sole Operator.all.isOperatorKey_key
  · exact not_plain_sole Operator.any.isOperatorKey_key

theorem not_plain_not {name : String} {operand : Json} (hname : name = "$not") :
    ¬ ∀ member ∈ [(name, operand)], isOperatorKey member.1 = false :=
  hname ▸ not_plain_sole Operator.not.isOperatorKey_key

theorem Step.unique {start next other : Position} {step : Segment}
    (hstart : start.node.Ordered) (h : Step start step next) (h' : Step start step other) :
    next = other := by
  cases h with
  | property hplain hmem =>
    cases h' with
    | property _ hmem' =>
      have hsame := (Entries.lookup_of_mem hstart.sorted hmem).symm.trans
        (Entries.lookup_of_mem hstart.sorted hmem')
      cases hsame
      rfl
    | operands hname => exact absurd hplain (not_plain_operands hname)
    | not hname => exact absurd hplain (not_plain_not hname)
  | operands hname =>
    cases h' with
    | property hplain _ => exact absurd hplain (not_plain_operands hname)
    | operands => rfl
    | not hname' => rcases hname with rfl | rfl <;> exact absurd hname' (by decide)
  | not hname =>
    cases h' with
    | property hplain _ => exact absurd hplain (not_plain_not hname)
    | operands hname' =>
      subst hname
      exact absurd hname' (by decide)
    | not => rfl
  | present hname | oneOf hname | contains hname =>
    subst hname
    -- Either the operator is the same or the key would have two names.
    cases h' with
    | present hname' | oneOf hname' | contains hname' =>
      first
        | rfl
        | exact absurd hname' (by decide)
  | operand hitem =>
    cases h' with
    | operand hitem' =>
      cases hitem.symm.trans hitem'
      rfl
  | choice hitem =>
    cases h' with
    | choice hitem' =>
      cases hitem.symm.trans hitem'
      rfl

theorem Leads.at? {start goal : Position} {path : List Segment} (h : Leads start path goal)
    (hstart : start.node.Ordered) : start.node.at? path = some goal.node := by
  induction h with
  | here => rfl
  | @step _ next _ first rest hstep _ ih =>
    rw [← List.singleton_append, Json.at?_append, hstep.at? hstart, Option.bind_some,
      ih (hstep.ordered hstart)]

end Position

end ConfiguredPredicates
