import ConfiguredPredicates.Proofs.Layers.Related

/-!
Reading in a context. A context is a tree with one hole, built level by level: each frame
goes one level down and has all that stands beside the hole. A tree is read in the hole
as it is read alone within what is left of the limit. Its violation is found again behind
the path of the hole, and what is made of it stands in the context of what is made of the
rest.
-/

namespace ConfiguredPredicates

/-- One level around a hole, from the role of the whole to that of the hole. What stands
beside the hole is trees in a frame of trees and what was made of them in one of results. -/
inductive Frame (π κ : Type) : Role → Role → Type
  | operand (op : Operator) (join : List Predicate → Predicate) (joins : op.Joins join)
      (before after : List π) : Frame π κ .predicate .predicate
  | not : Frame π κ .predicate .predicate
  | property (before : List (String × κ)) (name : String) (after : List (String × κ))
      (plain : ∀ key ∈ Entries.keys before ++ name :: Entries.keys after, isOperatorKey key = false)
      (sorted : (Entries.keys before ++ name :: Entries.keys after).Pairwise (· < ·)) :
      Frame π κ .predicate .condition
  | contains : Frame π κ .condition .predicate

inductive Context (π κ : Type) : Role → Role → Type
  | hole {role : Role} : Context π κ role role
  | inside {whole middle hole : Role} : Frame π κ whole middle → Context π κ middle hole →
      Context π κ whole hole

/-- What is read in a role on the way to a hole, or behind it. -/
def Accepted (limit : Nat) (beside : Role × Json) : Prop :=
  ∃ result, beside.1.ofJsonWithin limit beside.2 = .ok result

namespace Frame

variable {whole hole : Role}

def path {π κ : Type} : Frame π κ whole hole → List Segment
  | .operand op _ _ before _ => [.key op.key, .index before.length]
  | .not => [.key Operator.not.key]
  | .property _ name _ _ _ => [.key name]
  | .contains => [.key Operator.contains.key]

def fill : {whole hole : Role} → Frame Json Json whole hole → Json → Json
  | _, _, .operand op _ _ before after, v => op.apply (.array (before ++ v :: after))
  | _, _, .not, v => Operator.not.apply v
  | _, _, .property before name after _ _, v => .object (before ++ (name, v) :: after)
  | _, _, .contains, v => Operator.contains.apply v

def build : {whole hole : Role} → Frame Predicate Condition whole hole → hole.Result → whole.Result
  | _, _, .operand _ join _ before after, p => join (before ++ p :: after)
  | _, _, .not, p => Predicate.not p
  | _, _, .property before name after _ _, c => Predicate.expression (before ++ (name, c) :: after)
  | _, _, .contains, p => Condition.contains p

def before : Frame Json Json whole hole → List (Role × Json)
  | .operand _ _ _ before _ => before.map fun v => (.predicate, v)
  | .property before _ _ _ _ => before.map fun member => (.condition, member.2)
  | .not | .contains => []

def after : Frame Json Json whole hole → List (Role × Json)
  | .operand _ _ _ _ after => after.map fun v => (.predicate, v)
  | .property _ _ after _ _ => after.map fun member => (.condition, member.2)
  | .not | .contains => []

/-- What is made of a frame when all beside its hole is read within the limit. -/
inductive Reads (limit : Nat) : {whole hole : Role} → Frame Json Json whole hole →
    Frame Predicate Condition whole hole → Prop
  | operand {op : Operator} {join : List Predicate → Predicate} {joins : op.Joins join}
      {before after : List Json} {readBefore readAfter : List Predicate} :
      List.Forall₂ (fun v p => Predicate.ofJsonWithin limit v = .ok p) before readBefore →
      List.Forall₂ (fun v p => Predicate.ofJsonWithin limit v = .ok p) after readAfter →
      Reads limit (.operand op join joins before after)
        (.operand op join joins readBefore readAfter)
  | not : Reads limit .not .not
  | property {before after : List (String × Json)} {name : String}
      {readBefore readAfter : List (String × Condition)} {plain sorted plain' sorted'} :
      List.Forall₂ (OfJson.ReadsMember (Condition.ofJsonWithin limit)) before readBefore →
      List.Forall₂ (OfJson.ReadsMember (Condition.ofJsonWithin limit)) after readAfter →
      Reads limit (.property before name after plain sorted)
        (.property readBefore name readAfter plain' sorted')
  | contains : Reads limit .contains .contains

end Frame

namespace Context

variable {whole hole : Role}

def levels {π κ : Type} : {whole hole : Role} → Context π κ whole hole → Nat
  | _, _, .hole => 0
  | _, _, .inside _ rest => rest.levels + 1

def path {π κ : Type} : {whole hole : Role} → Context π κ whole hole → List Segment
  | _, _, .hole => []
  | _, _, .inside frame rest => frame.path ++ rest.path

def fill : {whole hole : Role} → Context Json Json whole hole → Json → Json
  | _, _, .hole, v => v
  | _, _, .inside frame rest, v => frame.fill (rest.fill v)

def build : {whole hole : Role} → Context Predicate Condition whole hole → hole.Result →
    whole.Result
  | _, _, .hole, result => result
  | _, _, .inside frame rest, result => frame.build (rest.build result)

/-- All that is visited before the hole is accepted where it stands. -/
def BeforeAccepted : {whole hole : Role} → (limit : Nat) → Context Json Json whole hole → Prop
  | _, _, _, .hole => True
  | _, _, limit, .inside frame rest =>
    (∀ beside ∈ frame.before, Accepted (limit - 1) beside) ∧ rest.BeforeAccepted (limit - 1)

def AfterAccepted : {whole hole : Role} → (limit : Nat) → Context Json Json whole hole → Prop
  | _, _, _, .hole => True
  | _, _, limit, .inside frame rest =>
    (∀ beside ∈ frame.after, Accepted (limit - 1) beside) ∧ rest.AfterAccepted (limit - 1)

inductive Reads : {whole hole : Role} → (limit : Nat) → Context Json Json whole hole →
    Context Predicate Condition whole hole → Prop
  | hole {role : Role} {limit : Nat} : Reads limit (.hole : Context Json Json role role) .hole
  | inside {whole middle hole : Role} {limit : Nat} {frame : Frame Json Json whole middle}
      {made : Frame Predicate Condition whole middle} {rest : Context Json Json middle hole}
      {madeRest : Context Predicate Condition middle hole} : frame.Reads limit made →
      Reads limit rest madeRest → Reads (limit + 1) (.inside frame rest) (.inside made madeRest)

end Context

theorem Cause.naming_naming (limit limit' : Nat) (cause : Cause) :
    (cause.naming limit').naming limit = cause.naming limit := by
  cases cause <;> rfl

namespace Role

variable (role : Role) {limit : Nat} {v : Json}

theorem within_naming (limit limit' levels : Nat) (v : Json) :
    role.within limit levels v =
      (role.within limit' levels v).mapError (Violation.naming limit) := by
  obtain ⟨hpredicate, hcondition⟩ := OfJson.within_naming limit limit' levels
  cases role with
  | predicate => exact hpredicate v
  | condition => exact hcondition v

theorem within_succ (limit : Nat) (v : Json) :
    role.within limit (limit + 1) v = role.ofJsonWithin limit v := by
  cases role <;> rfl

theorem within_below (limit : Nat) (v : Json) :
    role.within (limit + 1) (limit + 1) v =
      (role.ofJsonWithin limit v).mapError (Violation.naming (limit + 1)) := by
  rw [← within_succ, ← within_naming]

theorem within_below_of_ok {result : role.Result} (h : role.ofJsonWithin limit v = .ok result) :
    role.within (limit + 1) (limit + 1) v = .ok result := by
  rw [within_below, h]
  rfl

theorem within_below_of_error {x : Violation} (h : role.ofJsonWithin limit v = .error x) :
    role.within (limit + 1) (limit + 1) v = .error (x.naming (limit + 1)) := by
  rw [within_below, h]
  rfl

theorem naming_of_eq_error {x : Violation} (h : role.ofJsonWithin limit v = .error x) :
    x.naming limit = x := by
  have hnaming := role.within_naming limit limit (limit + 1) v
  rw [within_succ, h] at hnaming
  exact (Except.error.inj hnaming).symm

end Role

namespace Frame

open OfJson

theorem keys_around {α : Type} (before after : List (String × α)) (name : String) (a : α) :
    Entries.keys (before ++ (name, a) :: after) =
      Entries.keys before ++ name :: Entries.keys after := by
  simp [Entries.keys]

theorem usesOperator_around {before after : List (String × Json)} {name : String}
    (plain : ∀ key ∈ Entries.keys before ++ name :: Entries.keys after, isOperatorKey key = false)
    (v : Json) : usesOperator (before ++ (name, v) :: after) = false := by
  rw [usesOperator_eq_false_iff]
  intro member hmember
  refine plain member.1 ?_
  rw [← keys_around before after name v]
  exact List.mem_map_of_mem hmember

variable {whole hole : Role} {limit : Nat}

theorem ofJsonWithin_fill_of_error (F : Frame Json Json whole hole)
    (hbefore : ∀ beside ∈ F.before, Accepted limit beside) {v : Json} {x : Violation}
    (h : hole.ofJsonWithin limit v = .error x) :
    whole.ofJsonWithin (limit + 1) (F.fill v) =
      .error ⟨⟨F.path ++ x.path.segments⟩, x.cause.naming (limit + 1)⟩ := by
  cases F with
  | operand op join joins before after =>
    have hearlier : ∀ w ∈ before, ∃ p, predicateWithin (limit + 1) (limit + 1) w = .ok p := by
      intro w hw
      obtain ⟨p, hp⟩ := hbefore _ (List.mem_map_of_mem hw)
      exact ⟨p, Role.within_below_of_ok .predicate hp⟩
    exact predicateLayer_of_refuses
      (.operand joins ⟨⟨after, rfl⟩, hearlier, Role.within_below_of_error .predicate h⟩)
  | not => exact predicateLayer_of_refuses (.not (Role.within_below_of_error .predicate h))
  | property before name after plain sorted =>
    have hearlier : ∀ m ∈ before, ∃ c, conditionWithin (limit + 1) (limit + 1) m.2 = .ok c := by
      intro m hm
      obtain ⟨c, hc⟩ := hbefore _ (List.mem_map_of_mem hm)
      exact ⟨c, Role.within_below_of_ok .condition hc⟩
    exact predicateLayer_of_refuses (.property (usesOperator_around plain v)
      ⟨⟨after, rfl⟩, hearlier, Role.within_below_of_error .condition h⟩)
  | contains =>
    exact conditionLayer_of_refuses (.contains (Role.within_below_of_error .predicate h))

theorem ofJsonWithin_fill_of_reads {F : Frame Json Json whole hole}
    {made : Frame Predicate Condition whole hole} (hreads : F.Reads limit made) {v : Json}
    {result : hole.Result} (h : hole.ofJsonWithin limit v = .ok result) :
    whole.ofJsonWithin (limit + 1) (F.fill v) = .ok (made.build result) := by
  cases hreads with
  | @operand op join joins before after readBefore readAfter hbefore hafter =>
    have hall : List.Forall₂ (fun w p => predicateWithin (limit + 1) (limit + 1) w = .ok p)
        (before ++ v :: after) (readBefore ++ result :: readAfter) :=
      List.rel_append (hbefore.imp fun _ _ => Role.within_below_of_ok .predicate)
        (.cons (Role.within_below_of_ok .predicate h)
          (hafter.imp fun _ _ => Role.within_below_of_ok .predicate))
    exact predicateLayer_of_accepts (.operands joins hall)
  | not => exact predicateLayer_of_accepts (.not (Role.within_below_of_ok .predicate h))
  | @property before after name readBefore readAfter plain _ _ sorted hbefore hafter =>
    have hall : List.Forall₂ (ReadsMember (conditionWithin (limit + 1) (limit + 1)))
        (before ++ (name, v) :: after) (readBefore ++ (name, result) :: readAfter) :=
      List.rel_append (hbefore.imp fun _ _ hm => ⟨hm.1, Role.within_below_of_ok .condition hm.2⟩)
        (.cons ⟨rfl, Role.within_below_of_ok .condition h⟩
          (hafter.imp fun _ _ hm => ⟨hm.1, Role.within_below_of_ok .condition hm.2⟩))
    -- The keys that are read are those of the frame, so they are entered in the order they have.
    have hsorted : Entries.Sorted (readBefore ++ (name, result) :: readAfter) := by
      rw [Entries.sorted_iff_keys, keys_around]
      exact sorted
    have haccepts : AcceptsPredicate (predicateWithin (limit + 1) (limit + 1))
        (conditionWithin (limit + 1) (limit + 1)) (.object (before ++ (name, v) :: after))
        (.expression (Entries.ofList (readBefore ++ (name, result) :: readAfter))) :=
      .expression (usesOperator_around plain v) hall
    rw [Entries.ofList_of_sorted hsorted] at haccepts
    exact predicateLayer_of_accepts haccepts
  | contains => exact conditionLayer_of_accepts (.contains (Role.within_below_of_ok .predicate h))

theorem exists_reads (F : Frame Json Json whole hole)
    (hbefore : ∀ beside ∈ F.before, Accepted limit beside)
    (hafter : ∀ beside ∈ F.after, Accepted limit beside) : ∃ made, F.Reads limit made := by
  cases F with
  | operand op join joins before after =>
    have hreads : ∀ values : List Json, (∀ beside ∈ values.map (Role.predicate, ·),
        Accepted limit beside) → ∃ predicates,
          List.Forall₂ (fun v p => Predicate.ofJsonWithin limit v = .ok p) values predicates :=
      fun values h => exists_forall₂_iff.2 fun v hv => h _ (List.mem_map_of_mem hv)
    obtain ⟨readBefore, hreadBefore⟩ := hreads before hbefore
    obtain ⟨readAfter, hreadAfter⟩ := hreads after hafter
    exact ⟨.operand op join joins readBefore readAfter, .operand hreadBefore hreadAfter⟩
  | not => exact ⟨.not, .not⟩
  | property before name after plain sorted =>
    obtain ⟨readBefore, hreadBefore⟩ := exists_readsMember_iff.2 fun m hm =>
      hbefore _ (List.mem_map_of_mem hm)
    obtain ⟨readAfter, hreadAfter⟩ := exists_readsMember_iff.2 fun m hm =>
      hafter _ (List.mem_map_of_mem hm)
    have hkeys := keys_of_forall₂ hreadBefore
    have hkeys' := keys_of_forall₂ hreadAfter
    rw [← hkeys, ← hkeys'] at plain sorted
    exact ⟨.property readBefore name readAfter plain sorted, .property hreadBefore hreadAfter⟩
  | contains => exact ⟨.contains, .contains⟩

end Frame

namespace Context

variable {whole hole : Role} {limit : Nat}

theorem ofJsonWithin_fill_of_error (C : Context Json Json whole hole) (hlevels : C.levels ≤ limit)
    (hbefore : C.BeforeAccepted limit) {v : Json} {x : Violation}
    (h : hole.ofJsonWithin (limit - C.levels) v = .error x) :
    whole.ofJsonWithin limit (C.fill v) =
      .error ⟨⟨C.path ++ x.path.segments⟩, x.cause.naming limit⟩ := by
  induction C generalizing limit with
  -- A violation at the limit already names it.
  | hole =>
    have hnaming : x.naming limit = x := Role.naming_of_eq_error _ h
    change _ = Except.error (x.naming limit)
    rw [hnaming]
    exact h
  | inside F rest ih =>
    obtain ⟨limit, rfl⟩ : ∃ n, limit = n + 1 := ⟨limit - 1, by rw [levels] at hlevels; omega⟩
    obtain ⟨hframe, hrest⟩ := hbefore
    have hbelow := ih (Nat.le_of_succ_le_succ hlevels) hrest
      (by rwa [levels, Nat.add_sub_add_right] at h)
    have hwhole := F.ofJsonWithin_fill_of_error hframe hbelow
    rw [Cause.naming_naming, ← List.append_assoc] at hwhole
    exact hwhole

theorem ofJsonWithin_fill_of_reads {C : Context Json Json whole hole}
    {made : Context Predicate Condition whole hole} (hreads : C.Reads limit made) {v : Json}
    {result : hole.Result} (h : hole.ofJsonWithin (limit - C.levels) v = .ok result) :
    whole.ofJsonWithin limit (C.fill v) = .ok (made.build result) := by
  induction hreads with
  | hole => exact h
  | inside hframe _ ih =>
    have hbelow := ih (by rwa [levels, Nat.add_sub_add_right] at h)
    exact Frame.ofJsonWithin_fill_of_reads hframe hbelow

theorem exists_reads (C : Context Json Json whole hole) (hlevels : C.levels ≤ limit)
    (hbefore : C.BeforeAccepted limit) (hafter : C.AfterAccepted limit) :
    ∃ made, C.Reads limit made := by
  induction C generalizing limit with
  | hole => exact ⟨.hole, .hole⟩
  | inside F rest ih =>
    obtain ⟨limit, rfl⟩ : ∃ n, limit = n + 1 := ⟨limit - 1, by rw [levels] at hlevels; omega⟩
    obtain ⟨made, hframe⟩ := F.exists_reads hbefore.1 hafter.1
    obtain ⟨madeRest, hrest⟩ := ih (Nat.le_of_succ_le_succ hlevels) hbefore.2 hafter.2
    exact ⟨.inside made madeRest, .inside hframe hrest⟩

end Context

/-- A tree is read in a context as it is alone within what the context leaves of the limit:
its violation is found behind the path of the hole, and its result in the typed context. -/
theorem ofJsonWithin_fill {whole hole : Role} (C : Context Json Json whole hole) {limit : Nat}
    (hlevels : C.levels ≤ limit) (hbefore : C.BeforeAccepted limit) :
    (∀ v x, hole.ofJsonWithin (limit - C.levels) v = .error x →
      whole.ofJsonWithin limit (C.fill v) =
        .error ⟨⟨C.path ++ x.path.segments⟩, x.cause.naming limit⟩) ∧
    (C.AfterAccepted limit → ∃ made, C.Reads limit made ∧
      ∀ v result, hole.ofJsonWithin (limit - C.levels) v = .ok result →
        whole.ofJsonWithin limit (C.fill v) = .ok (made.build result)) := by
  refine ⟨fun v x => C.ofJsonWithin_fill_of_error hlevels hbefore, fun hafter => ?_⟩
  obtain ⟨made, hreads⟩ := C.exists_reads hlevels hbefore hafter
  exact ⟨made, hreads, fun v result => Context.ofJsonWithin_fill_of_reads hreads⟩

theorem ofJsonWithin_fill_any :
    let C : Context Json Json .predicate .predicate :=
      .inside (.operand .any .any .any [.string "x"] [.bool true])
        (.inside (.property [("kind", .string "api")] "spec" [] (by decide) (by decide))
          (.inside .contains .hole))
    let v : Json := .object [("a", .null)]
    let w : Json := .object [("a", .string "b")]
    let Q : List Segment := [.key "$any", .index 1, .key "spec", .key "$contains"]
    C.levels ≤ 4 ∧ C.BeforeAccepted 4 ∧ C.AfterAccepted 4 ∧
      Predicate.ofJsonWithin 4 (C.fill v) =
        .error ⟨⟨Q ++ [.key "a"]⟩, .unexpected .condition .null⟩ ∧
      Predicate.ofJsonWithin 3 (C.fill v) = .error ⟨⟨Q ++ [.key "a"]⟩, .tooDeep 3⟩ ∧
      ∃ made, C.Reads 4 made ∧ Predicate.ofJsonWithin 4 (C.fill w) =
        .ok (made.build (.expression [("a", .primitive (.string "b"))])) := by
  intro C v w Q
  have hlevels : C.levels ≤ 4 := by decide
  have hbefore : ∀ limit, C.BeforeAccepted (limit + 3) := by
    intro limit
    refine ⟨?_, ?_, ?_, trivial⟩
    · exact List.forall_mem_singleton.2 ⟨.primitive (.string "x"), rfl⟩
    · exact List.forall_mem_singleton.2 ⟨.primitive (.string "api"), rfl⟩
    · exact List.forall_mem_nil _
  have hafter : C.AfterAccepted 4 := by
    refine ⟨?_, ?_, ?_, trivial⟩
    · exact List.forall_mem_singleton.2 ⟨.primitive (.bool true), rfl⟩
    · exact List.forall_mem_nil _
    · exact List.forall_mem_nil _
  obtain ⟨herror, hok⟩ := ofJsonWithin_fill C hlevels (hbefore 1)
  obtain ⟨herrorThree, -⟩ := @ofJsonWithin_fill _ _ C 3 (by decide) (hbefore 0)
  obtain ⟨made, hreads, hmade⟩ := hok hafter
  exact ⟨hlevels, hbefore 1, hafter, herror v _ rfl, herrorThree v _ rfl, made, hreads,
    hmade w _ rfl⟩

end ConfiguredPredicates
