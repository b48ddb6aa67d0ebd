import ConfiguredPredicates.Proofs.Written.Rearranged

/-!
Accepted texts. What a reader takes off a text is put together as rearranged texts are: from
tokens, blanks and brackets with items between commas. So no text that is read falls out of
the relation, as long as the keys of every object in it are distinct.
-/

namespace ConfiguredPredicates.Json

/-- No object in the tree has one key twice. -/
inductive DistinctKeys : Json → Prop
  | null : DistinctKeys .null
  | bool (b : Bool) : DistinctKeys (.bool b)
  | number (n : Number) : DistinctKeys (.number n)
  | string (s : String) : DistinctKeys (.string s)
  | array {items : List Json} : (∀ item ∈ items, DistinctKeys item) → DistinctKeys (.array items)
  | object {members : List (String × Json)} : (Entries.keys members).Nodup →
      (∀ member ∈ members, DistinctKeys member.2) → DistinctKeys (.object members)

namespace DistinctKeys

theorem of_item {items : List Json} (h : DistinctKeys (.array items)) :
    ∀ item ∈ items, DistinctKeys item := by
  cases h with
  | array h => exact h

variable {members : List (String × Json)} (h : DistinctKeys (.object members))
include h

theorem nodup_keys : (Entries.keys members).Nodup := by
  cases h with
  | object h _ => exact h

theorem of_member : ∀ member ∈ members, DistinctKeys member.2 := by
  cases h with
  | object _ h => exact h

end DistinctKeys

namespace Text

section
variable {ι α : Type} {closing : Char} {item : Reader α} {text : ι → List Char} {Good : α → Prop}
  {Spells : ι → α → Prop}
  (hitem : ∀ cs a rest, Good a → item cs = .ok (a, rest) → ∃ x, cs = text x ++ rest ∧ Spells x a)
  (hpad : ∀ x a gap, Spells x a → Blank gap → ∃ y, text y = text x ++ gap ∧ Spells y a)
include hitem hpad

theorem exists_texts_of_followingItems {fuel : Nat} {cs rest : List Char} {as : List α}
    (hgood : ∀ a ∈ as, Good a) (h : followingItems closing item fuel cs = .ok (as, rest)) :
    ∃ gap xs, Blank gap ∧ cs = gap ++ ((xs.map text).flatMap (',' :: ·) ++ closing :: rest) ∧
      List.Forall₂ Spells xs as := by
  induction fuel generalizing cs as with
  | zero => cases h
  | succ fuel ih =>
    rw [followingItems] at h
    split at h
    case h_1 => cases h
    next c after hskip =>
    obtain ⟨-, gap, hgap, rfl⟩ := exists_gap_of_skipBlanks hskip
    split at h
    · next hclosing =>
      cases h
      subst hclosing
      exact ⟨gap, [], hgap, rfl, .nil⟩
    split at h
    case isFalse => cases h
    next hcomma =>
    subst hcomma
    obtain ⟨⟨first, middle⟩, hfirst, h⟩ := bind_eq_ok.1 h
    obtain ⟨⟨others, _⟩, hothers, h⟩ := bind_eq_ok.1 h
    cases h
    obtain ⟨hgood, hgoods⟩ := List.forall_mem_cons.1 hgood
    obtain ⟨x, rfl, hx⟩ := hitem after first middle hgood hfirst
    obtain ⟨behind, xs, hbehind, rfl, hxs⟩ := ih hgoods hothers
    obtain ⟨y, htext, hy⟩ := hpad x first behind hx hbehind
    exact ⟨gap, y :: xs, hgap, by simp [htext], .cons hy hxs⟩

theorem exists_texts_of_items {cs rest : List Char} {as : List α} (hgood : ∀ a ∈ as, Good a)
    (h : items closing item cs = .ok (as, rest)) :
    ∃ gap xs, Blank gap ∧ cs = gap ++ (commaSeparated (xs.map text) ++ closing :: rest) ∧
      List.Forall₂ Spells xs as := by
  rw [items] at h
  split at h
  case h_1 => cases h
  next c after hskip =>
  obtain ⟨-, gap, hgap, rfl⟩ := exists_gap_of_skipBlanks hskip
  split at h
  · next hclosing =>
    cases h
    subst hclosing
    exact ⟨gap, [], hgap, rfl, .nil⟩
  obtain ⟨⟨first, middle⟩, hfirst, h⟩ := bind_eq_ok.1 h
  obtain ⟨⟨others, _⟩, hothers, h⟩ := bind_eq_ok.1 h
  cases h
  obtain ⟨hgood, hgoods⟩ := List.forall_mem_cons.1 hgood
  obtain ⟨x, hcs, hx⟩ := hitem (c :: after) first middle hgood hfirst
  obtain ⟨behind, xs, hbehind, rfl, hxs⟩ := exists_texts_of_followingItems hitem hpad hgoods hothers
  obtain ⟨y, htext, hy⟩ := hpad x first behind hx hbehind
  exact ⟨gap, y :: xs, hgap, by simp [hcs, htext, commaSeparated], .cons hy hxs⟩

end

theorem value_cases {array : Reader (List Json)} {object : Reader (List (String × Json))}
    {cs rest : List Char} {v : Json} (h : value array object cs = .ok (v, rest)) :
    nested 0 cs = .ok (v, rest) ∨
      (∃ gap inner items, Blank gap ∧ cs = gap ++ '[' :: inner ∧
        array inner = .ok (items, rest) ∧ v = .array items) ∨
      ∃ gap inner members, Blank gap ∧ cs = gap ++ '\x7b' :: inner ∧
        object inner = .ok (members, rest) ∧ v = .object members := by
  cases hskip : skipBlanks cs with
  | nil => simp [value, hskip] at h
  | cons c after =>
    obtain ⟨-, gap, hgap, rfl⟩ := exists_gap_of_skipBlanks hskip
    by_cases harray : c = '['
    · subst harray
      rw [hgap.value_append] at h
      obtain ⟨⟨items, _⟩, hitems, h⟩ := bind_eq_ok.1 h
      cases h
      exact .inr (.inl ⟨gap, after, items, hgap, rfl, hitems, rfl⟩)
    by_cases hobject : c = '\x7b'
    · subst hobject
      rw [hgap.value_append] at h
      obtain ⟨⟨members, _⟩, hmembers, h⟩ := bind_eq_ok.1 h
      cases h
      exact .inr (.inr ⟨gap, after, members, hgap, rfl, hmembers, rfl⟩)
    · refine .inl ?_
      rw [nested, hgap.value_append]
      rw [value, hskip] at h
      split at h
      case h_1 heq => cases heq
      case h_6 heq => exact absurd (List.cons.inj heq).1 harray
      case h_7 heq => exact absurd (List.cons.inj heq).1 hobject
      case h_8 heq =>
        cases heq
        split at h
        case isFalse => cases h
        next hnumber =>
        rw [value_of_number hnumber]
        exact h
      all_goals
        next heq =>
        cases heq
        exact h

theorem exists_front_of_token {cs rest : List Char} {v : Json}
    (h : nested 0 cs = .ok (v, rest)) : ∃ front, cs = front ++ rest ∧ Rearranged front front := by
  cases hskip : skipBlanks cs with
  | nil => simp [nested_of_blank hskip] at h
  | cons c after =>
    obtain ⟨hc, gap, hgap, rfl⟩ := exists_gap_of_skipBlanks hskip
    rw [nested, hgap.value_append] at h
    obtain ⟨-, -, front, rfl, hfront⟩ := value_of_token hc h
    refine ⟨gap ++ c :: front, by simp, .token (v := v) ?_⟩
    rw [nested, hgap.value_append, ← List.append_nil front]
    exact hfront _ _ [] NumberLiteral.ends_nil

theorem Rearranged.behind_gap {gap text : List Char} (hgap : Blank gap) (h : Rearranged text text) :
    Rearranged (gap ++ text) (gap ++ text) := by
  simpa using Rearranged.padded hgap blank_nil hgap blank_nil h

theorem Rearranged.before_gap {gap text : List Char} (hgap : Blank gap) (h : Rearranged text text) :
    Rearranged (text ++ gap) (text ++ gap) :=
  .padded blank_nil hgap blank_nil hgap h

theorem eq_append_of_separator {sign : Char} {cs rest : List Char}
    (h : separator sign cs = .ok rest) : ∃ gap, Blank gap ∧ cs = gap ++ sign :: rest := by
  rw [separator] at h
  split at h
  case h_1 => cases h
  next c after hskip =>
  obtain ⟨-, gap, hgap, rfl⟩ := exists_gap_of_skipBlanks hskip
  split at h
  case isFalse => cases h
  next hc =>
  cases h
  exact ⟨gap, hgap, hc ▸ rfl⟩

structure UnchangedMember extends SharedMember where
  second_eq : second = first
  value_rearranged : Rearranged first.value first.value

namespace UnchangedMember

def text (m : UnchangedMember) : List Char := m.first.chars m.name

def beforeGap (m : UnchangedMember) (gap : List Char) (hgap : Blank gap) : UnchangedMember :=
  let first := { m.first with value := m.first.value ++ gap }
  ⟨⟨m.key, m.name, m.reads, first, first⟩, rfl, m.value_rearranged.before_gap hgap⟩

theorem text_beforeGap (m : UnchangedMember) (gap : List Char) (hgap : Blank gap) :
    (m.beforeGap gap hgap).text = m.text ++ gap := by
  simp [text, beforeGap, MemberText.chars, memberText]

end UnchangedMember

section
variable {levels : Nat} (hread : ∀ cs v rest, v.DistinctKeys → nested levels cs = .ok (v, rest) →
  ∃ front, cs = front ++ rest ∧ Rearranged front front)
include hread

theorem exists_front_of_array {inner rest : List Char} {values : List Json}
    (hdistinct : ∀ v ∈ values, v.DistinctKeys)
    (h : items ']' (nested levels) inner = .ok (values, rest)) :
    ∃ front, '[' :: inner = front ++ rest ∧ Rearranged front front := by
  have hitem : ∀ cs v rest, DistinctKeys v → nested levels cs = .ok (v, rest) →
      ∃ text : {text // Rearranged text text}, cs = text.1 ++ rest ∧ True := by
    intro cs v rest hv h
    obtain ⟨front, hcs, hfront⟩ := hread cs v rest hv h
    exact ⟨⟨front, hfront⟩, hcs, trivial⟩
  obtain ⟨gap, texts, hgap, rfl, -⟩ := exists_texts_of_items hitem
    (fun text _ gap _ hgap => ⟨⟨_, text.2.before_gap hgap⟩, rfl, trivial⟩) hdistinct h
  refine ⟨bracketed '[' ']' gap (texts.map Subtype.val), by simp [bracketed], ?_⟩
  have hsame : ∀ item ∈ texts.map fun text => (text.1, text.1), Rearranged item.1 item.2 :=
    List.forall_mem_map.2 fun text _ => text.2
  simpa [Function.comp_def] using Rearranged.array hgap hgap hsame

theorem exists_text_of_member {cs rest : List Char} {a : String × Json} (ha : a.2.DistinctKeys)
    (h : member (nested levels) cs = .ok (a, rest)) :
    ∃ m : UnchangedMember, cs = m.text ++ rest ∧ m.key = a.1 := by
  obtain ⟨inner, hquote, h⟩ := bind_eq_ok.1 h
  obtain ⟨⟨key, behindKey⟩, hkey, h⟩ := bind_eq_ok.1 h
  obtain ⟨behindColon, hcolon, h⟩ := bind_eq_ok.1 h
  obtain ⟨⟨v, _⟩, hvalue, h⟩ := bind_eq_ok.1 h
  cases h
  obtain ⟨gap, hgap, rfl⟩ := eq_append_of_separator hquote
  have hlocal : Local (fun _ => True) StringLiteral.read := StringLiteral.local_read
  obtain ⟨name, rfl, hname⟩ := hlocal _ _ _ hkey
  obtain ⟨colonGap, hcolonGap, rfl⟩ := eq_append_of_separator hcolon
  obtain ⟨text, rfl, htext⟩ := hread behindColon v rest ha hvalue
  have hreads : StringLiteral.read name = .ok (key, []) := by
    simpa using hname [] trivial
  let stands : MemberText := ⟨gap, colonGap, text, hgap, hcolonGap⟩
  exact ⟨⟨⟨key, name, hreads, stands, stands⟩, rfl, htext⟩,
    by simp [UnchangedMember.text, MemberText.chars, memberText, stands], rfl⟩

theorem exists_front_of_object {inner rest : List Char} {members : List (String × Json)}
    (hkeys : (Entries.keys members).Nodup) (hdistinct : ∀ member ∈ members, member.2.DistinctKeys)
    (h : items '\x7d' (member (nested levels)) inner = .ok (members, rest)) :
    ∃ front, '\x7b' :: inner = front ++ rest ∧ Rearranged front front := by
  obtain ⟨gap, ms, hgap, rfl, hms⟩ := exists_texts_of_items
    (fun cs a rest ha h => exists_text_of_member hread ha h)
    (fun m a gap hkey hgap => ⟨m.beforeGap gap hgap, m.text_beforeGap gap hgap, hkey⟩) hdistinct h
  refine ⟨bracketed '\x7b' '\x7d' gap (ms.map UnchangedMember.text), by simp [bracketed], ?_⟩
  have hshared : (ms.map UnchangedMember.toSharedMember).map SharedMember.key =
      Entries.keys members := by
    rw [List.map_map, Entries.keys, ← List.forall₂_eq_eq_eq, List.forall₂_map_left_iff,
      List.forall₂_map_right_iff]
    exact hms
  have hvalues : ∀ m ∈ ms.map UnchangedMember.toSharedMember,
      Rearranged m.first.value m.second.value :=
    List.forall_mem_map.2 fun m _ => m.second_eq ▸ m.value_rearranged
  have hobject := Rearranged.object hgap hgap (hshared ▸ hkeys) (.refl _) hvalues
  simp only [List.map_map, Function.comp_def, UnchangedMember.second_eq] at hobject
  exact hobject

end

/-- What is read with distinct keys is put together in the relation, up to what is left. -/
theorem exists_front_of_nested {levels : Nat} {cs rest : List Char} {v : Json}
    (hdistinct : v.DistinctKeys) (h : nested levels cs = .ok (v, rest)) :
    ∃ front, cs = front ++ rest ∧ Rearranged front front := by
  induction levels generalizing cs rest v with
  | zero => exact exists_front_of_token h
  | succ levels ih =>
    obtain htoken | ⟨gap, inner, values, hgap, rfl, hvalues, rfl⟩ |
      ⟨gap, inner, members, hgap, rfl, hmembers, rfl⟩ := value_cases h
    · exact exists_front_of_token htoken
    · obtain ⟨front, hfront, hrearranged⟩ := exists_front_of_array
        (fun _ _ _ hv h => ih hv h) hdistinct.of_item hvalues
      exact ⟨gap ++ front, by rw [hfront, List.append_assoc], hrearranged.behind_gap hgap⟩
    · obtain ⟨front, hfront, hrearranged⟩ := exists_front_of_object
        (fun _ _ _ hv h => ih hv h) hdistinct.nodup_keys hdistinct.of_member hmembers
      exact ⟨gap ++ front, by rw [hfront, List.append_assoc], hrearranged.behind_gap hgap⟩

/-- A whole text with distinct keys is a rearrangement of itself. -/
theorem rearranged_self {cs rest : List Char} {v : Json} (hdistinct : v.DistinctKeys)
    (h : readWritten cs = .ok (v, rest)) (hrest : Blank rest) : Rearranged cs cs := by
  obtain ⟨front, rfl, hfront⟩ := exists_front_of_nested hdistinct h
  exact hfront.before_gap hrest

end Text

end ConfiguredPredicates.Json
