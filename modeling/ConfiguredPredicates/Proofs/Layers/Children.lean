import ConfiguredPredicates.Predicate.OfJson
import Mathlib.Data.List.Forall2

/-!
Children read in turn. A list of items or of members is read as a whole when every
one of them is, and else its first failure is the violation that is reported, placed
under the step to the child that failed.
-/

namespace ConfiguredPredicates

namespace OfJson

/-- The readings of a list go through up to an element whose reading fails. -/
structure FirstFailure (read : β → Except Violation α) (elements before : List β) (element : β)
    (x : Violation) : Prop where
  split : ∃ after, elements = before ++ element :: after
  succeed : ∀ earlier ∈ before, ∃ a, read earlier = .ok a
  fails : read element = .error x

theorem forall_ok_or_firstFailure (read : β → Except Violation α) (elements : List β) :
    (∀ element ∈ elements, ∃ a, read element = .ok a) ∨
      ∃ before element x, FirstFailure read elements before element x := by
  induction elements with
  | nil => exact .inl (by simp)
  | cons head rest ih =>
    cases hhead : read head with
    | error x => exact .inr ⟨[], head, x, ⟨rest, rfl⟩, by simp, hhead⟩
    | ok a =>
      rcases ih with hall | ⟨before, element, x, ⟨after, rfl⟩, hbefore, hfails⟩
      · exact .inl (List.forall_mem_cons.2 ⟨⟨a, hhead⟩, hall⟩)
      · exact .inr ⟨head :: before, element, x, ⟨after, rfl⟩,
          List.forall_mem_cons.2 ⟨⟨a, hhead⟩, hbefore⟩, hfails⟩

theorem exists_forall₂_iff {R : β → α → Prop} {elements : List β} :
    (∃ results, List.Forall₂ R elements results) ↔ ∀ element ∈ elements, ∃ a, R element a := by
  induction elements with
  | nil => simp
  | cons head rest ih =>
    rw [List.forall_mem_cons, ← ih]
    constructor
    · rintro ⟨_, hall⟩
      cases hall with
      | cons hhead hrest => exact ⟨⟨_, hhead⟩, ⟨_, hrest⟩⟩
    · rintro ⟨⟨a, hhead⟩, ⟨results, hrest⟩⟩
      exact ⟨a :: results, .cons hhead hrest⟩

theorem items_of_forall₂ {read : Json → Except Violation α} {values : List Json}
    {results : List α} (h : List.Forall₂ (fun v a => read v = .ok a) values results)
    (position : Nat) : items read position values = .ok results := by
  induction h generalizing position with
  | nil => rfl
  | cons hhead _ ih => simp [items, hhead, ih, bind, Except.bind]

theorem items_of_firstFailure {read : Json → Except Violation α} {values before : List Json}
    {v : Json} {x : Violation} (h : FirstFailure read values before v x) (position : Nat) :
    items read position values = .error (x.under (.index (position + before.length))) := by
  obtain ⟨⟨after, rfl⟩, hbefore, hfails⟩ := h
  induction before generalizing position with
  | nil => simp [items, hfails, bind, Except.bind]
  | cons head rest ih =>
    obtain ⟨⟨a, hhead⟩, hrest⟩ := List.forall_mem_cons.1 hbefore
    have hposition : position + 1 + rest.length = position + (head :: rest).length := by
      simp only [List.length_cons]
      omega
    simp [items, hhead, ih (position + 1) hrest, hposition, bind, Except.bind]

def ReadsMember (read : Json → Except Violation α) (member : String × Json)
    (result : String × α) : Prop :=
  member.1 = result.1 ∧ read member.2 = .ok result.2

theorem exists_readsMember_iff {read : Json → Except Violation α}
    {members : List (String × Json)} :
    (∃ results, List.Forall₂ (ReadsMember read) members results) ↔
      ∀ member ∈ members, ∃ a, read member.2 = .ok a := by
  rw [exists_forall₂_iff]
  refine forall₂_congr fun member _ => ?_
  exact ⟨fun ⟨result, _, hread⟩ => ⟨result.2, hread⟩, fun ⟨a, hread⟩ => ⟨(member.1, a), rfl, hread⟩⟩

theorem properties_of_forall₂ {read : Json → Except Violation α} {members : List (String × Json)}
    {results : List (String × α)} (h : List.Forall₂ (ReadsMember read) members results) :
    properties read members = .ok results := by
  induction h with
  | nil => rfl
  | @cons member result _ _ hhead _ ih =>
    obtain ⟨key, v⟩ := member
    obtain ⟨_, a⟩ := result
    obtain ⟨rfl, hread⟩ := hhead
    simp only at hread
    simp [properties, hread, ih, bind, Except.bind]

theorem properties_of_firstFailure {read : Json → Except Violation α}
    {members before : List (String × Json)} {member : String × Json} {x : Violation}
    (h : FirstFailure (fun m => read m.2) members before member x) :
    properties read members = .error (x.under (.key member.1)) := by
  obtain ⟨⟨after, rfl⟩, hbefore, hfails⟩ := h
  induction before with
  | nil => simp [properties, hfails, bind, Except.bind]
  | cons head rest ih =>
    obtain ⟨⟨a, hhead⟩, hrest⟩ := List.forall_mem_cons.1 hbefore
    simp [properties, hhead, ih hrest, bind, Except.bind]

theorem keys_of_forall₂ {read : Json → Except Violation α} {members : List (String × Json)}
    {results : List (String × α)} (h : List.Forall₂ (ReadsMember read) members results) :
    Entries.keys results = Entries.keys members := by
  induction h with
  | nil => rfl
  | cons hhead _ ih => simpa [Entries.keys] using ⟨hhead.1.symm, ih⟩

/-- Two descriptions of outcomes are exact when they are right and one always applies. -/
theorem outcome_iff {result : Except ε α} {accepts : α → Prop} {refuses : ε → Prop}
    (hok : ∀ a, accepts a → result = .ok a) (herror : ∀ x, refuses x → result = .error x)
    (htotal : (∃ a, accepts a) ∨ ∃ x, refuses x) :
    (∀ a, result = .ok a ↔ accepts a) ∧ ∀ x, result = .error x ↔ refuses x := by
  rcases htotal with ⟨b, hb⟩ | ⟨y, hy⟩
  · have hresult := hok b hb
    refine ⟨fun a => ⟨fun h => ?_, hok a⟩, fun x => ⟨fun h => ?_, herror x⟩⟩
    · cases hresult.symm.trans h
      exact hb
    · cases hresult.symm.trans h
  · have hresult := herror y hy
    refine ⟨fun a => ⟨fun h => ?_, hok a⟩, fun x => ⟨fun h => ?_, herror x⟩⟩
    · cases hresult.symm.trans h
    · cases hresult.symm.trans h
      exact hy

end OfJson

end ConfiguredPredicates
