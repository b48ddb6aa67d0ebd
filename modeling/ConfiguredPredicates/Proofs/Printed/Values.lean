import ConfiguredPredicates.Proofs.Printed.Strings
import ConfiguredPredicates.Proofs.Written.Values

/-!
Printed values. Main statement: with so many levels left, the text of a value whose
numbers are whole is read as that value when it nests no deeper, and otherwise the
bracket beyond the last level is the fault.
-/

namespace ConfiguredPredicates.Json

inductive WholeNumbers : Json → Prop
  | null : WholeNumbers .null
  | bool (b : Bool) : WholeNumbers (.bool b)
  | number (n : WholeNumber) : WholeNumbers (.number (.whole n))
  | string (s : String) : WholeNumbers (.string s)
  | array {items : List Json} : (∀ item ∈ items, WholeNumbers item) → WholeNumbers (.array items)
  | object {members : List (String × Json)} : (∀ member ∈ members, WholeNumbers member.2) →
      WholeNumbers (.object members)

namespace WholeNumbers

attribute [simp] null bool number string

@[simp] theorem array_iff {items : List Json} :
    WholeNumbers (.array items) ↔ ∀ item ∈ items, item.WholeNumbers :=
  ⟨fun | .array hitems => hitems, .array⟩

@[simp] theorem object_iff {members : List (String × Json)} :
    WholeNumbers (.object members) ↔ ∀ member ∈ members, member.2.WholeNumbers :=
  ⟨fun | .object hmembers => hmembers, .object⟩

end WholeNumbers

theorem compactItems_eq_map (items : List Json) : compactItems items = items.map compactChars := by
  induction items with
  | nil => rfl
  | cons item rest ih => rw [compactItems, ih, List.map_cons]

theorem compactMembers_eq_map (members : List (String × Json)) :
    compactMembers members =
      members.map fun member => quote member.1 ++ ':' :: compactChars member.2 := by
  induction members with
  | nil => rfl
  | cons member rest ih =>
    obtain ⟨key, value⟩ := member
    rw [compactMembers, ih, List.map_cons]

namespace Text

open NumberLiteral (Ends)

theorem quote_append (s : String) (rest : List Char) :
    quote s ++ rest = '"' :: (s.toList.flatMap escape ++ '"' :: rest) := by
  simp [quote]

theorem reads_of_eq {item : Reader α} {text : List Char} {fits : Bool} {a : α}
    (h : ∀ rest, Ends rest → item (text ++ rest) = ifFits fits a rest) : Reads item text fits a :=
  ⟨[], blank_nil, h⟩

theorem quote_colon (key : String) (text : List Char) :
    quote key ++ ':' :: text = memberText [] (key.toList.flatMap escape ++ ['"']) [] text := by
  simp [quote, memberText]

theorem opens_compactChars {v : Json} (hv : v.WholeNumbers) : Opens v.compactChars := by
  cases hv with
  | number n =>
    obtain ⟨c, cs, hchars, hc⟩ := NumberLiteral.exists_chars_eq_cons n
    rw [compactChars, hchars]
    exact ⟨c, cs, skipBlanks_cons (opens_of_number hc).1 cs, (opens_of_number hc).2⟩
  | bool b => cases b <;> exact ⟨_, _, rfl, nofun⟩
  | null | string | array | object => exact ⟨_, _, rfl, nofun⟩

theorem value_number {array : Reader (List Json)} {object : Reader (List (String × Json))}
    (n : WholeNumber) {rest : List Char} (hrest : Ends rest) :
    value array object ((Number.whole n).chars ++ rest) = .ok (.number (.whole n), rest) := by
  have hread := NumberLiteral.read_chars n hrest
  obtain ⟨c, cs, hchars, hc⟩ := NumberLiteral.exists_chars_eq_cons n
  rw [hchars, List.cons_append] at hread ⊢
  rw [value_of_number hc, hread]
  rfl

theorem nested_scalar {v : Json} {rest : List Char} (levels : Nat) (hscalar : v.nesting = 0)
    (hvalue : ∀ array object, value array object (v.compactChars ++ rest) = .ok (v, rest)) :
    nested levels (v.compactChars ++ rest) = ifFits (v.nesting ≤ levels) v rest := by
  cases levels <;> simp [nested, hvalue, hscalar, ifFits]

theorem array_append (items : List Json) (rest : List Char) :
    (Json.array items).compactChars ++ rest =
      '[' :: (commaSeparated (compactItems items) ++ ']' :: rest) := by
  simp [compactChars]

theorem object_append (members : List (String × Json)) (rest : List Char) :
    (Json.object members).compactChars ++ rest =
      '\x7b' :: (commaSeparated (compactMembers members) ++ '\x7d' :: rest) := by
  simp [compactChars]

theorem nested_compactChars_array {items : List Json} {levels : Nat}
    (hitems : ∀ item ∈ items, item.WholeNumbers)
    (hread : ∀ item ∈ items, ∀ rest, Ends rest →
      nested levels (item.compactChars ++ rest) = ifFits (item.nesting ≤ levels) item rest)
    (rest : List Char) :
    nested (levels + 1) ((Json.array items).compactChars ++ rest) =
      ifFits ((Json.array items).nesting ≤ levels + 1) (.array items) rest := by
  have hall := nested_array (fun item hitem => reads_of_eq (hread item hitem))
    (fun item hitem => opens_compactChars (hitems item hitem)) blank_nil rest
  rwa [List.map_id', List.nil_append, ← compactItems_eq_map, ← array_append] at hall

theorem nested_compactChars_object {members : List (String × Json)} {levels : Nat}
    (hread : ∀ m ∈ members, ∀ rest, Ends rest →
      nested levels (m.2.compactChars ++ rest) = ifFits (m.2.nesting ≤ levels) m.2 rest)
    (rest : List Char) :
    nested (levels + 1) ((Json.object members).compactChars ++ rest) =
      ifFits ((Json.object members).nesting ≤ levels + 1) (.object members) rest := by
  have hmember : ∀ m ∈ members, Reads (member (nested levels))
      (quote m.1 ++ ':' :: m.2.compactChars) (m.2.nesting ≤ levels) m := by
    intro m hm
    rw [quote_colon]
    exact member_memberText blank_nil blank_nil (StringLiteral.read_flatMap_escape m.1 [])
      (reads_of_eq (hread m hm))
  have hall := nested_object hmember (fun m _ => ⟨_, _, rfl, nofun⟩) blank_nil rest
  rwa [List.map_id', List.nil_append, ← compactMembers_eq_map, ← object_append] at hall

/-- The text of a value is read as the value exactly when the levels are enough for it. -/
theorem nested_compactChars {v : Json} (hv : v.WholeNumbers) (levels : Nat) {rest : List Char}
    (hrest : Ends rest) :
    nested levels (v.compactChars ++ rest) = ifFits (v.nesting ≤ levels) v rest := by
  -- One case per kind of value: what encloses others takes a level and leaves them the rest.
  induction hv generalizing levels rest with
  | null => exact nested_scalar levels rfl fun _ _ => rfl
  | bool b => cases b <;> exact nested_scalar levels rfl fun _ _ => rfl
  | number n => exact nested_scalar levels rfl fun _ _ => value_number n hrest
  | string s =>
    refine nested_scalar levels rfl fun array object => ?_
    rw [compactChars, quote_append, value, skipBlanks_cons (by decide)]
    simp [StringLiteral.read_flatMap_escape, bind, Except.bind]
  | array hitems ih =>
    cases levels with
    | zero => rfl
    | succ levels =>
      exact nested_compactChars_array hitems (fun item hitem _ => ih item hitem levels) rest
  | object _ ih =>
    cases levels with
    | zero => rfl
    | succ levels => exact nested_compactChars_object (fun m hm _ => ih m hm levels) rest

end Text

theorem canonicalItems_eq_map (items : List Json) : canonicalItems items = items.map canonical := by
  induction items with
  | nil => rfl
  | cons item rest ih => rw [canonicalItems, ih, List.map_cons]

theorem canonicalMembers_eq_map (members : List (String × Json)) :
    canonicalMembers members = members.map fun member => (member.1, member.2.canonical) := by
  induction members with
  | nil => rfl
  | cons member rest ih =>
    obtain ⟨key, value⟩ := member
    rw [canonicalMembers, ih, List.map_cons]

theorem canonical_of_ordered {v : Json} (hv : v.Ordered) : v.canonical = v := by
  induction hv with
  | null | bool | number | string => rfl
  | array _ ih => rw [canonical, canonicalItems_eq_map, List.map_congr_left ih, List.map_id']
  | @object members hsorted _ ih =>
    have hsame : ∀ member ∈ members, (member.1, member.2.canonical) = member :=
      fun member hmember => Prod.ext rfl (ih member hmember)
    rw [canonical, canonicalMembers_eq_map, List.map_congr_left hsame, List.map_id',
      Entries.ofList_of_sorted hsorted]

/-- A printed tree in order is read as itself when it nests no deeper than any text may. -/
theorem Text.read_compactChars {v : Json} (hordered : v.Ordered) (hwhole : v.WholeNumbers) :
    read v.compactChars = ifFits (v.nesting ≤ maxNesting) v [] := by
  have hwritten := nested_compactChars hwhole maxNesting NumberLiteral.ends_nil
  rw [List.append_nil] at hwritten
  rw [read, readWritten, hwritten]
  exact (bind_ifFits _ v [] canonical).trans (by rw [canonical_of_ordered hordered])

theorem ofText_compact {v : Json} (hordered : v.Ordered) (hwhole : v.WholeNumbers)
    (hnesting : v.nesting ≤ Text.maxNesting) : ofText v.compact = .ok v := by
  have hread := Text.read_compactChars hordered hwhole
  rw [decide_eq_true hnesting] at hread
  rw [ofText, compact, String.toList_ofList, hread]
  rfl

end ConfiguredPredicates.Json
