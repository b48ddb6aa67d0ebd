import ConfiguredPredicates.Proofs.Grammar
import ConfiguredPredicates.Proofs.Positions

/-!
What a violation means, said of positions. `Breaks` is the rule that each cause names,
`ClearWay` says that nothing is wrong that is looked at before the end of a path, and
`FirstBreak` joins the two. All of them are kept when a violation is seen from one
step further up.
-/

namespace ConfiguredPredicates

def Expectation.Allows : Expectation → Json.Kind → Prop
  | .predicate, kind => kind ≠ .null ∧ kind ≠ .array
  | .condition, kind => kind ≠ .null ∧ kind ≠ .array
  | .predicates, kind => kind = .array
  | .primitives, kind => kind = .array
  | .primitive, kind => kind = .string ∨ kind = .number ∨ kind = .boolean
  | .boolean, kind => kind = .boolean

namespace Position

/-- What a cause says of the position that a path leads to. The causes that are about the
use of an operator have its key as the last step of their path. -/
inductive Breaks (limit : Nat) (start : Position) : List Segment → Cause → Prop
  | tooDeep {path : List Segment} {wanted : Expectation} {node : Json} :
      wanted = .predicate ∨ wanted = .condition → Leads start path ⟨wanted, limit + 1, node⟩ →
      Breaks limit start path (.tooDeep limit)
  | unexpected {path : List Segment} {wanted : Expectation} {depth : Nat} {node : Json} :
      Leads start path ⟨wanted, depth, node⟩ → depth ≤ limit → ¬ wanted.Allows node.kind →
      Breaks limit start path (.unexpected wanted node.kind)
  | sharedOperator {path : List Segment} {wanted : Expectation} {depth : Nat}
      {members : List (String × Json)} : wanted = .predicate ∨ wanted = .condition →
      Leads start path ⟨wanted, depth, .object members⟩ → depth ≤ limit →
      (∃ member ∈ members, isOperatorKey member.1 = true) → 2 ≤ members.length →
      Breaks limit start path (.sharedOperator (Entries.keys members))
  | plainObject {path : List Segment} {depth : Nat} {members : List (String × Json)} :
      Leads start path ⟨.condition, depth, .object members⟩ → depth ≤ limit →
      (∀ member ∈ members, isOperatorKey member.1 = false) → Breaks limit start path .plainObject
  | unknownOperator {path : List Segment} {wanted : Expectation} {depth : Nat} {name : String}
      {operand : Json} : wanted = .predicate ∨ wanted = .condition →
      Leads start path ⟨wanted, depth, .object [(name, operand)]⟩ → depth ≤ limit →
      isOperatorKey name = true → (∀ op : Operator, name ≠ op.key) →
      Breaks limit start (path ++ [.key name]) (.unknownOperator name)
  | conditionOperator {path : List Segment} {depth : Nat} {op : Operator} {operand : Json} :
      Leads start path ⟨.predicate, depth, .object [(op.key, operand)]⟩ → depth ≤ limit →
      op = .present ∨ op = .oneOf ∨ op = .contains →
      Breaks limit start (path ++ [.key op.key]) (.conditionOperator op)
  | combinator {path : List Segment} {depth : Nat} {op : Operator} {operand : Json} :
      Leads start path ⟨.condition, depth, .object [(op.key, operand)]⟩ → depth ≤ limit →
      op = .all ∨ op = .any ∨ op = .not →
      Breaks limit start (path ++ [.key op.key]) (.combinator op)

/-- What is looked at before a step is in the grammar, as deep as the limit allows. -/
def Clear (limit : Nat) : Position → Segment → Prop
  | ⟨.predicate, depth, .object members⟩, .key name =>
    ∀ member ∈ members, member.1 < name → ∃ n, IsCondition n member.2 ∧ depth + 1 + n ≤ limit
  | ⟨.predicates, depth, .array items⟩, .index position =>
    ∀ item ∈ items.take position, ∃ n, IsPredicate n item ∧ depth + 1 + n ≤ limit
  | ⟨.primitives, _, .array items⟩, .index position =>
    ∀ item ∈ items.take position, IsPrimitive item
  | _, _ => True

/-- No position on the way lies too deep, and nothing stands before the way that is wrong. -/
def ClearWay (limit : Nat) (start : Position) (path : List Segment) : Prop :=
  ∀ front step back, path = front ++ step :: back → ∀ position, Leads start front position →
    position.depth ≤ limit ∧ position.Clear limit step

structure FirstBreak (limit : Nat) (start : Position) (x : Violation) : Prop where
  exists_node : ∃ node, start.node.at? x.path.segments = some node
  breaks : Breaks limit start x.path.segments x.cause
  clear : ClearWay limit start x.path.segments

variable {limit : Nat} {start next : Position}

theorem Breaks.step {first : Segment} (hstep : Step start first next) {path : List Segment}
    {cause : Cause} (h : Breaks limit next path cause) :
    Breaks limit start (first :: path) cause := by
  cases h with
  | tooDeep hwanted hleads => exact .tooDeep hwanted (.step hstep hleads)
  | unexpected hleads hdepth hkind => exact .unexpected (.step hstep hleads) hdepth hkind
  | sharedOperator hwanted hleads hdepth huses hlength =>
    exact .sharedOperator hwanted (.step hstep hleads) hdepth huses hlength
  | plainObject hleads hdepth hplain => exact .plainObject (.step hstep hleads) hdepth hplain
  | unknownOperator hwanted hleads hdepth hkey hunknown =>
    exact .unknownOperator hwanted (.step hstep hleads) hdepth hkey hunknown
  | conditionOperator hleads hdepth hop =>
    exact .conditionOperator (.step hstep hleads) hdepth hop
  | combinator hleads hdepth hop => exact .combinator (.step hstep hleads) hdepth hop

theorem at?_sole_of_leads {path : List Segment} {wanted : Expectation} {depth : Nat}
    {name : String} {operand : Json} (hstart : start.node.Ordered)
    (hleads : Leads start path ⟨wanted, depth, .object [(name, operand)]⟩) :
    start.node.at? (path ++ [.key name]) = some operand := by
  rw [Json.at?_append, hleads.at? hstart]
  simp [Json.at?]

theorem Breaks.exists_node {path : List Segment} {cause : Cause} (hstart : start.node.Ordered)
    (h : Breaks limit start path cause) : ∃ node, start.node.at? path = some node := by
  cases h with
  | tooDeep _ hleads | unexpected hleads | sharedOperator _ hleads | plainObject hleads =>
    exact ⟨_, hleads.at? hstart⟩
  | unknownOperator _ hleads | conditionOperator hleads | combinator hleads =>
    exact ⟨_, at?_sole_of_leads hstart hleads⟩

theorem clearWay_nil : ClearWay limit start [] := by
  intro front step back hpath
  simp at hpath

theorem clearWay_singleton {step : Segment} (hdepth : start.depth ≤ limit)
    (hclear : start.Clear limit step) : ClearWay limit start [step] := by
  intro front other back hpath position hleads
  cases front with
  | nil =>
    cases hleads
    cases hpath
    exact ⟨hdepth, hclear⟩
  | cons => simp at hpath

theorem ClearWay.step {first : Segment} {path : List Segment} (hstart : start.node.Ordered)
    (hstep : Step start first next) (hdepth : start.depth ≤ limit)
    (hclear : start.Clear limit first) (h : ClearWay limit next path) :
    ClearWay limit start (first :: path) := by
  intro front step back hpath position hleads
  cases hleads with
  | here =>
    cases hpath
    exact ⟨hdepth, hclear⟩
  | step hother hrest =>
    obtain ⟨rfl, hrestpath⟩ := List.cons.inj hpath
    cases hstep.unique hstart hother
    exact h _ step back hrestpath position hrest

theorem FirstBreak.step {first : Segment} {x : Violation} (hstart : start.node.Ordered)
    (hstep : Step start first next) (hdepth : start.depth ≤ limit)
    (hclear : start.Clear limit first) (h : FirstBreak limit next x) :
    FirstBreak limit start (x.under first) :=
  have hbreaks := h.breaks.step hstep
  ⟨hbreaks.exists_node hstart, hbreaks, h.clear.step hstart hstep hdepth hclear⟩

theorem FirstBreak.of_here {cause : Cause} (hstart : start.node.Ordered)
    (h : Breaks limit start [] cause) : FirstBreak limit start (.here cause) :=
  ⟨h.exists_node hstart, h, clearWay_nil⟩

theorem FirstBreak.property {depth : Nat} {before after : List (String × Json)}
    {member : String × Json} {x : Violation}
    (hv : (Json.object (before ++ member :: after)).Ordered) (hdepth : depth ≤ limit)
    (hplain : ∀ m ∈ before ++ member :: after, isOperatorKey m.1 = false)
    (hbefore : ∀ m ∈ before, ∃ n, IsCondition n m.2 ∧ depth + 1 + n ≤ limit)
    (h : FirstBreak limit ⟨.condition, depth + 1, member.2⟩ x) :
    FirstBreak limit ⟨.predicate, depth, .object (before ++ member :: after)⟩
      (x.under (.key member.1)) := by
  have hmem : member ∈ before ++ member :: after := by simp
  have hstep : Step ⟨.predicate, depth, .object (before ++ member :: after)⟩ (.key member.1)
      ⟨.condition, depth + 1, member.2⟩ := .property hplain hmem
  refine h.step hv hstep hdepth fun earlier hearlier hlt => ?_
  exact hbefore earlier (Entries.mem_front_of_lt hv.sorted hearlier hlt)

theorem FirstBreak.operand {depth : Nat} {before after : List Json} {v : Json} {x : Violation}
    (hvalues : (Json.array (before ++ v :: after)).Ordered) (hdepth : depth ≤ limit)
    (hbefore : ∀ item ∈ before, ∃ n, IsPredicate n item ∧ depth + 1 + n ≤ limit)
    (h : FirstBreak limit ⟨.predicate, depth + 1, v⟩ x) :
    FirstBreak limit ⟨.predicates, depth, .array (before ++ v :: after)⟩
      (x.under (.index before.length)) := by
  refine h.step hvalues (.operand (by simp)) hdepth fun item hitem => ?_
  exact hbefore item (by simpa using hitem)

theorem FirstBreak.choice {depth : Nat} {before after : List Json} {v : Json} {x : Violation}
    (hvalues : (Json.array (before ++ v :: after)).Ordered) (hdepth : depth ≤ limit)
    (hbefore : ∀ item ∈ before, IsPrimitive item)
    (h : FirstBreak limit ⟨.primitive, depth, v⟩ x) :
    FirstBreak limit ⟨.primitives, depth, .array (before ++ v :: after)⟩
      (x.under (.index before.length)) := by
  refine h.step hvalues (.choice (by simp)) hdepth fun item hitem => ?_
  exact hbefore item (by simpa using hitem)

theorem clear_sole (limit : Nat) (wanted : Expectation) (depth : Nat) (name : String)
    (operand : Json) :
    Clear limit ⟨wanted, depth, .object [(name, operand)]⟩ (.key name) := by
  cases wanted with
  | predicate =>
    intro member hmember hlt
    obtain rfl := List.mem_singleton.1 hmember
    exact absurd hlt (String.lt_irrefl name)
  | condition | predicates | primitives | primitive | boolean => trivial

theorem FirstBreak.of_sole {wanted : Expectation} {depth : Nat} {name : String} {operand : Json}
    {cause : Cause} (hdepth : depth ≤ limit)
    (h : Breaks limit ⟨wanted, depth, .object [(name, operand)]⟩ [.key name] cause) :
    FirstBreak limit ⟨wanted, depth, .object [(name, operand)]⟩
      (.under (.key name) (.here cause)) := by
  refine ⟨⟨operand, ?_⟩, h, ?_⟩
  · simp [Violation.under, Violation.here, NodePath.under, NodePath.root, Json.at?]
  · exact clearWay_singleton hdepth (clear_sole limit wanted depth name operand)

end Position

end ConfiguredPredicates
