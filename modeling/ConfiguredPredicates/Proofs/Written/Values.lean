import ConfiguredPredicates.Proofs.Written.Lists
import ConfiguredPredicates.Proofs.Written.Numbers

/-!
Written values. A list in brackets takes a level more than the items between its commas, and
so does an object over its members; with a level less the bracket is malformed. A value
without brackets takes no level and is read before all that may follow it.
-/

namespace ConfiguredPredicates.Json

theorem decide_nesting_array (items : List Json) (levels : Nat) :
    decide ((Json.array items).nesting ≤ levels + 1) =
      items.all fun item => item.nesting ≤ levels := by
  rw [Bool.eq_iff_iff, List.all_eq_true, decide_eq_true_iff, nesting,
    Nat.add_le_add_iff_right, nestingItems_le_iff]
  simp only [decide_eq_true_iff]

theorem decide_nesting_object (members : List (String × Json)) (levels : Nat) :
    decide ((Json.object members).nesting ≤ levels + 1) =
      members.all fun member => member.2.nesting ≤ levels := by
  rw [Bool.eq_iff_iff, List.all_eq_true, decide_eq_true_iff, nesting,
    Nat.add_le_add_iff_right, nestingMembers_le_iff]
  simp only [decide_eq_true_iff]

namespace Text

open NumberLiteral (Ends)

theorem value_skipBlanks (array : Reader (List Json)) (object : Reader (List (String × Json)))
    (cs : List Char) : value array object (skipBlanks cs) = value array object cs := by
  rw [value, skipBlanks_skipBlanks, value]

theorem nested_skipBlanks (levels : Nat) (cs : List Char) :
    nested levels (skipBlanks cs) = nested levels cs := by
  cases levels <;> exact value_skipBlanks _ _ cs

theorem member_skipBlanks (value : Reader α) (cs : List Char) :
    member value (skipBlanks cs) = member value cs := by
  rw [member, separator, skipBlanks_skipBlanks, ← separator, member]

theorem Blank.value_append {gap : List Char} (hgap : Blank gap) (array : Reader (List Json))
    (object : Reader (List (String × Json))) (cs : List Char) :
    value array object (gap ++ cs) = value array object cs := by
  rw [← value_skipBlanks, hgap.skipBlanks_append, value_skipBlanks]

def memberText (gap name colonGap text : List Char) : List Char :=
  gap ++ '"' :: (name ++ (colonGap ++ ':' :: text))

theorem member_memberText {value : Reader Json} {v : Json} {fits : Bool} {key : String}
    {gap name colonGap text : List Char} (hgap : Blank gap) (hcolonGap : Blank colonGap)
    (hname : StringLiteral.read name = .ok (key, [])) (hvalue : Reads value text fits v) :
    Reads (member value) (memberText gap name colonGap text) fits (key, v) := by
  obtain ⟨behind, hbehind, hvalue⟩ := hvalue
  refine ⟨behind, hbehind, fun rest hrest => ?_⟩
  have hlocal : Local (fun _ => True) StringLiteral.read := StringLiteral.local_read
  obtain ⟨front, hfront, hread⟩ := hlocal _ _ _ hname
  rw [List.append_nil] at hfront
  subst hfront
  have hbind := bind_ifFits fits v (behind ++ rest) (Prod.mk key)
  rw [← hvalue rest hrest] at hbind
  have hquote : separator '"' (memberText gap name colonGap text ++ rest) =
      .ok (name ++ (colonGap ++ ':' :: (text ++ rest))) := by
    rw [memberText, List.append_assoc, separator, hgap.skipBlanks_append]
    simp [skipBlanks_cons (show isBlank '"' = false by decide)]
  have hcolon : separator ':' (colonGap ++ ':' :: (text ++ rest)) = .ok (text ++ rest) := by
    rw [separator, hcolonGap.skipBlanks_append, skipBlanks_cons (by decide)]
    rfl
  rw [member, hquote]
  simp only [bind, Except.bind, hread _ trivial, hcolon] at hbind ⊢
  exact hbind

section
variable {ι : Type} {text : ι → List Char} {made : ι → Json} {xs : List ι} {levels : Nat}
  {gap : List Char}

theorem nested_array (hitem : ∀ x ∈ xs, Reads (nested levels) (text x)
      ((made x).nesting ≤ levels) (made x))
    (hopen : ∀ x ∈ xs, Opens (text x)) (hgap : Blank gap) (rest : List Char) :
    nested (levels + 1) ('[' :: (gap ++ (commaSeparated (xs.map text) ++ ']' :: rest))) =
      ifFits ((Json.array (xs.map made)).nesting ≤ levels + 1) (.array (xs.map made)) rest := by
  have hall := items_commaSeparated .array hitem (nested_skipBlanks levels) hopen hgap rest
  have hbind :=
    bind_ifFits (xs.all fun x => (made x).nesting ≤ levels) (xs.map made) rest Json.array
  rw [← hall] at hbind
  rw [nested, decide_nesting_array, List.all_map]
  exact hbind

theorem nested_object {key : ι → String}
    (hmember : ∀ x ∈ xs, Reads (member (nested levels)) (text x)
      ((made x).nesting ≤ levels) (key x, made x))
    (hopen : ∀ x ∈ xs, Opens (text x)) (hgap : Blank gap) (rest : List Char) :
    nested (levels + 1) ('\x7b' :: (gap ++ (commaSeparated (xs.map text) ++ '\x7d' :: rest))) =
      ifFits ((Json.object (xs.map fun x => (key x, made x))).nesting ≤ levels + 1)
        (.object (xs.map fun x => (key x, made x))) rest := by
  have hall := items_commaSeparated .object hmember (member_skipBlanks _) hopen hgap rest
  have hbind := bind_ifFits (xs.all fun x => (made x).nesting ≤ levels)
    (xs.map fun x => (key x, made x)) rest Json.object
  rw [← hall] at hbind
  rw [nested, decide_nesting_object, List.all_map]
  exact hbind

end

/-- The first character of a number literal begins no list and ends none. -/
theorem opens_of_number {c : Char} (hc : c = '-' ∨ c.isDigit = true) :
    isBlank c = false ∧ ¬ IsClosing c := by
  refine ⟨?_, ?_⟩
  · cases hblank : isBlank c with
    | false => rfl
    | true =>
      simp only [isBlank, Bool.or_eq_true, decide_eq_true_eq] at hblank
      rcases hblank with ((rfl | rfl) | rfl) | rfl <;> exact absurd hc (by decide)
  · rintro ⟨⟩ <;> exact absurd hc (by decide)

theorem value_of_number {array : Reader (List Json)} {object : Reader (List (String × Json))}
    {c : Char} (hc : c = '-' ∨ c.isDigit = true) (cs : List Char) :
    value array object (c :: cs) = (do
      let (n, rest) ← NumberLiteral.read (c :: cs)
      .ok (.number n, rest)) := by
  rw [value, skipBlanks_cons (opens_of_number hc).1]
  split
  case h_1 heq => cases heq
  case h_8 heq =>
    cases heq
    rw [if_pos hc]
  all_goals
    next heq =>
    cases heq
    exact absurd hc (by decide)

theorem eq_of_literal {α : Type} {value a : α} {letters cs rest : List Char}
    (h : literal value letters cs = .ok (a, rest)) : a = value := by
  induction letters generalizing cs with
  | nil =>
    cases h
    rfl
  | cons letter letters ih =>
    obtain _ | ⟨c, cs⟩ := cs
    · cases h
    · rw [literal] at h
      split at h
      · exact ih h
      · cases h

/-- A value without brackets is read the same before whatever may follow it. -/
theorem value_of_token {c : Char} {cs rest : List Char} {v : Json} (hc : isBlank c = false)
    (h : nested 0 (c :: cs) = .ok (v, rest)) :
    v.nesting = 0 ∧ ¬ IsClosing c ∧ ∃ front, cs = front ++ rest ∧
      ∀ array object more, Ends more →
        value array object (c :: (front ++ more)) = .ok (v, more) := by
  have hliteral {value : Json} {letters cs : List Char} (hvalue : value.nesting = 0)
      (h : literal value letters cs = .ok (v, rest)) : v.nesting = 0 ∧ ∃ front, cs = front ++ rest ∧
        ∀ more, Ends more → literal value letters (front ++ more) = .ok (v, more) :=
    ⟨eq_of_literal h ▸ hvalue, local_literal value letters cs v rest h⟩
  rw [nested, value, skipBlanks_cons hc] at h
  split at h
  case h_1 heq => cases heq
  case h_2 heq | h_3 heq | h_4 heq =>
    cases heq
    obtain ⟨hnesting, front, rfl, hfront⟩ := hliteral rfl h
    exact ⟨hnesting, nofun, front, rfl, fun _ _ => hfront⟩
  case h_5 heq =>
    cases heq
    obtain ⟨⟨s, _⟩, hread, h⟩ := bind_eq_ok.1 h
    cases h
    have hlocal : Local Ends StringLiteral.read := StringLiteral.local_read
    obtain ⟨front, rfl, hfront⟩ := hlocal _ _ _ hread
    refine ⟨rfl, nofun, front, rfl, fun array object more hmore => ?_⟩
    rw [value, skipBlanks_cons (by decide)]
    simp only [hfront more hmore]
    rfl
  case h_6 | h_7 => cases h
  case h_8 heq =>
    cases heq
    split at h
    case isFalse => cases h
    next hnumber =>
    obtain ⟨⟨n, _⟩, hread, h⟩ := bind_eq_ok.1 h
    cases h
    obtain ⟨front, hcs, hfront⟩ := NumberLiteral.local_read _ _ _ hread
    obtain _ | ⟨_, front⟩ := front
    · cases hfront [] NumberLiteral.ends_nil
    · obtain ⟨rfl, rfl⟩ := List.cons.inj hcs
      refine ⟨rfl, (opens_of_number hnumber).2, front, rfl, fun array object more hmore => ?_⟩
      rw [value_of_number hnumber, ← List.cons_append, hfront more hmore]
      rfl

end Text

end ConfiguredPredicates.Json
