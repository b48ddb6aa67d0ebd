import ConfiguredPredicates.Predicate.Text
import ConfiguredPredicates.Proofs.Digits

/-!
What a message loses at its end. A message that ends with the text of a position keeps
exactly what stands before it, and every other message is kept whole. No position ends
with another one, so there is one way only to take a position off.
-/

namespace ConfiguredPredicates.Json.Text

structure Numeral (ds : List Char) (n : Nat) : Prop where
  nonempty : ds ≠ []
  digits : ∀ d ∈ ds, d.isDigit = true
  value : Nat.ofDigitChars 10 ds 0 = n
  bound : n < 0x10000000000000000

def NamesPosition (place : List Char) (position : Position) : Prop :=
  ∃ ds es, Numeral ds position.line ∧ Numeral es position.column ∧
    place = " at line ".toList ++ (ds ++ (" column ".toList ++ es))

section
variable {place front : List Char} {position other : Position}

theorem Numeral.count_eq_zero {ds : List Char} {n : Nat} (h : Numeral ds n) : ds.count 'a' = 0 :=
  List.count_eq_zero.2 fun ha => absurd (h.digits 'a' ha) (by decide)

theorem NamesPosition.exists_eq_cons (h : NamesPosition place position) :
    ∃ rest, place = ' ' :: 'a' :: rest := by
  obtain ⟨ds, es, -, -, rfl⟩ := h
  exact ⟨_, rfl⟩

theorem NamesPosition.count_eq_one (h : NamesPosition place position) : place.count 'a' = 1 := by
  obtain ⟨ds, es, hds, hes, rfl⟩ := h
  have hline : " at line ".toList.count 'a' = 1 := by decide
  have hcolumn : " column ".toList.count 'a' = 0 := by decide
  simp only [List.count_append, hline, hcolumn, hds.count_eq_zero, hes.count_eq_zero]

/-- The only `a` of a position is its second character, so none is a proper end of another. -/
theorem NamesPosition.not_cons_append (h : NamesPosition place position) (c : Char) :
    ¬ NamesPosition (c :: front ++ place) other := by
  intro hlonger
  obtain ⟨rest, hrest⟩ := hlonger.exists_eq_cons
  have hcount := hlonger.count_eq_one
  rw [List.count_append, h.count_eq_one] at hcount
  cases front with
  | nil =>
    obtain ⟨rest', rfl⟩ := h.exists_eq_cons
    cases hrest
  | cons d front =>
    obtain rfl : d = 'a' := (List.cons.inj (List.cons.inj hrest).2).1
    have hfront : 'a' ∉ c :: 'a' :: front := List.count_eq_zero.1 (by omega)
    exact hfront (by simp)

end

theorem behind?_append (expected rest : List Char) :
    behind? expected (expected ++ rest) = some rest := by
  induction expected with
  | nil => rfl
  | cons c expected ih => rw [List.cons_append, behind?, if_pos rfl, ih]

theorem foldl_digits_eq (ds : List Char) (n : Nat) :
    ds.foldl (fun n d => n * 10 + (d.toNat - 48)) n = Nat.ofDigitChars 10 ds n := by
  induction ds generalizing n with
  | nil => simp
  | cons d ds ih =>
    rw [List.foldl_cons, ih, Nat.ofDigitChars_cons, Nat.mul_comm]
    rfl

theorem positionNumber?_append {ds rest : List Char} {n : Nat} (hds : Numeral ds n)
    (hrest : ∀ c ∈ rest.head?, c.isDigit = false) :
    positionNumber? (ds ++ rest) = some (n, rest) := by
  have hspan := Text.span_append hds.digits hrest
  rw [List.span_eq_takeWhile_dropWhile, Prod.mk.injEq] at hspan
  have hbound := hds.bound
  simp [positionNumber?, hspan, foldl_digits_eq, hds.value, hds.nonempty, hbound]

theorem exists_numeral_of_positionNumber? {cs rest : List Char} {n : Nat}
    (h : positionNumber? cs = some (n, rest)) : ∃ ds, Numeral ds n ∧ cs = ds ++ rest := by
  simp only [positionNumber?, foldl_digits_eq] at h
  split at h
  · cases h
  · next hfits =>
    cases h
    simp only [Bool.or_eq_true, List.isEmpty_iff, decide_eq_true_eq, not_or] at hfits
    exact ⟨cs.takeWhile Char.isDigit,
      ⟨hfits.1, fun _ => List.mem_takeWhile_imp, rfl, Nat.lt_of_not_le hfits.2⟩,
      List.takeWhile_append_dropWhile.symm⟩

theorem ofChars?_eq_some_iff {place : List Char} {position : Position} :
    Position.ofChars? place = some position ↔ NamesPosition place position := by
  constructor
  · intro h
    simp only [Position.ofChars?, Option.bind_eq_bind, Option.bind_eq_some_iff] at h
    obtain ⟨behindAt, hat, ⟨line, behindLine⟩, hline, h⟩ := h
    obtain ⟨behindSign, hsign, ⟨column, rest⟩, hcolumn, h⟩ := h
    split at h
    case isFalse => cases h
    next hrest =>
    cases h
    obtain ⟨ds, hds, rfl⟩ := exists_numeral_of_positionNumber? hline
    obtain ⟨es, hes, rfl⟩ := exists_numeral_of_positionNumber? hcolumn
    obtain rfl : rest = [] := List.isEmpty_iff.1 hrest
    obtain rfl : behindLine = _ := eq_append_of_behind? hsign
    exact ⟨ds, es, hds, hes, by rw [eq_append_of_behind? hat, List.append_nil]⟩
  · rintro ⟨ds, es, hds, hes, rfl⟩
    have hsign : ∀ c ∈ (" column ".toList ++ es).head?, c.isDigit = false := by simp
    have hline := positionNumber?_append hds hsign
    have hend : ∀ c ∈ ([] : List Char).head?, c.isDigit = false := by simp
    have hcolumn := positionNumber?_append hes hend
    rw [List.append_nil] at hcolumn
    simp only [Position.ofChars?, behind?_append, hline, hcolumn, Option.bind_eq_bind,
      Option.bind_some, List.isEmpty_nil, if_true]

theorem split?_eq_some_iff {cs front : List Char} {position : Position} :
    Position.split? cs = some (front, position) ↔
      ∃ place, cs = front ++ place ∧ NamesPosition place position := by
  constructor
  · intro h
    induction cs generalizing front with
    | nil => cases h
    | cons c cs ih =>
      rw [Position.split?] at h
      split at h
      · next hplace =>
        cases h
        exact ⟨c :: cs, rfl, ofChars?_eq_some_iff.1 hplace⟩
      · obtain ⟨⟨shorter, _⟩, hsplit, heq⟩ := Option.map_eq_some_iff.1 h
        cases heq
        obtain ⟨place, rfl, hplace⟩ := ih hsplit
        exact ⟨place, rfl, hplace⟩
  · rintro ⟨place, rfl, hplace⟩
    induction front with
    | nil =>
      obtain ⟨rest, rfl⟩ := hplace.exists_eq_cons
      rw [List.nil_append, Position.split?, ofChars?_eq_some_iff.2 hplace]
    | cons c front ih =>
      have hnone : Position.ofChars? (c :: front ++ place) = none :=
        Option.eq_none_iff_forall_ne_some.2 fun other hother =>
          hplace.not_cons_append c (ofChars?_eq_some_iff.1 hother)
      rw [List.cons_append] at hnone ⊢
      rw [Position.split?, hnone, ih]
      rfl

/-- What is kept of a message: all that stands before the position it ends with, and the
whole message when it ends with none. -/
inductive Keeps (message : String) : String → Prop
  | whole : (∀ front place position, message.toList = front ++ place →
      ¬ NamesPosition place position) → Keeps message message
  | shortened {kept : String} {place : List Char} {position : Position} :
      NamesPosition place position → message.toList = kept.toList ++ place → Keeps message kept

theorem withoutPosition_eq_iff {message kept : String} :
    withoutPosition message = kept ↔ Keeps message kept := by
  unfold withoutPosition
  constructor
  · rintro rfl
    split
    · next front position hsplit =>
      obtain ⟨place, hmessage, hplace⟩ := split?_eq_some_iff.1 hsplit
      exact .shortened hplace (by rw [hmessage, String.toList_ofList])
    · next hsplit =>
      refine .whole fun front place position hmessage hplace => ?_
      rw [split?_eq_some_iff.2 ⟨place, hmessage, hplace⟩] at hsplit
      cases hsplit
  · intro hkeeps
    cases hkeeps with
    | whole hnone =>
      have hsplit : Position.split? message.toList = none := by
        refine Option.eq_none_iff_forall_ne_some.2 fun (front, position) hsome => ?_
        obtain ⟨place, hmessage, hplace⟩ := split?_eq_some_iff.1 hsome
        exact hnone front place position hmessage hplace
      rw [hsplit]
    | shortened hplace hmessage =>
      rw [split?_eq_some_iff.2 ⟨_, hmessage, hplace⟩]
      exact String.ofList_toList

end ConfiguredPredicates.Json.Text
