import ConfiguredPredicates.Proofs.LastEntries
import ConfiguredPredicates.Proofs.Printed.Values

/-!
Texts that differ in blanks and in the order of the members of their objects. The trees
that they write differ in the order of members alone, so in key order they are the same.
-/

namespace ConfiguredPredicates.Json

structure Reordered (v w : Json) : Prop where
  canonical : v.canonical = w.canonical
  nesting : v.nesting = w.nesting

section
variable {ι : Type} {v w : ι → Json} {xs ys : List ι}

theorem Reordered.array (h : ∀ x ∈ xs, Reordered (v x) (w x)) :
    Reordered (.array (xs.map v)) (.array (xs.map w)) := by
  constructor
  · rw [Json.canonical, Json.canonical, canonicalItems_eq_map, canonicalItems_eq_map, List.map_map,
      List.map_map]
    exact congrArg Json.array (List.map_congr_left fun x hx => (h x hx).canonical)
  · rw [Json.nesting, Json.nesting, Nat.add_right_cancel_iff]
    refine eq_of_forall_ge_iff fun n => ?_
    rw [nestingItems_le_iff, nestingItems_le_iff, List.forall_mem_map, List.forall_mem_map]
    exact forall₂_congr fun x hx => by rw [(h x hx).nesting]

theorem Reordered.object {key : ι → String} (hkeys : (xs.map key).Nodup) (hperm : xs.Perm ys)
    (h : ∀ x ∈ xs, Reordered (v x) (w x)) :
    Reordered (.object (xs.map fun x => (key x, v x)))
      (.object (ys.map fun x => (key x, w x))) := by
  constructor
  · have hmembers : (xs.map fun x => (key x, (v x).canonical)) =
        xs.map fun x => (key x, (w x).canonical) :=
      List.map_congr_left fun x hx => by rw [(h x hx).canonical]
    have hentries := Entries.ofList_eq_of_perm (hperm.map fun x => (key x, (w x).canonical))
      (by rwa [Entries.keys, List.map_map])
    rw [Json.canonical, Json.canonical, canonicalMembers_eq_map, canonicalMembers_eq_map,
      List.map_map, List.map_map]
    exact congrArg Json.object ((congrArg Entries.ofList hmembers).trans hentries)
  · rw [Json.nesting, Json.nesting, Nat.add_right_cancel_iff]
    refine eq_of_forall_ge_iff fun n => ?_
    rw [nestingMembers_le_iff, nestingMembers_le_iff, List.forall_mem_map, List.forall_mem_map]
    exact (forall₂_congr fun x hx => by rw [(h x hx).nesting]).trans (by simp only [hperm.mem_iff])

end

namespace Text

/-- Wherever the text stands and however many levels are left, it is read as the value. -/
structure Writes (text : List Char) (v : Json) : Prop where
  opens : Opens text
  reads (levels : Nat) : Reads (nested levels) text (v.nesting ≤ levels) v

def bracketed (opening closing : Char) (gap : List Char) (texts : List (List Char)) : List Char :=
  opening :: (gap ++ (commaSeparated texts ++ [closing]))

structure MemberText where
  gap : List Char
  colonGap : List Char
  value : List Char
  blank_gap : Blank gap
  blank_colonGap : Blank colonGap

def MemberText.chars (m : MemberText) (name : List Char) : List Char :=
  memberText m.gap name m.colonGap m.value

/-- A member of two texts. Its name, behind the opening quotation mark, is the same in both. -/
structure SharedMember where
  key : String
  name : List Char
  reads : StringLiteral.read name = .ok (key, [])
  first : MemberText
  second : MemberText

/-- Texts of one value, but for blanks and for the order of members with distinct keys. -/
inductive Rearranged : List Char → List Char → Prop
  | token {token : List Char} {v : Json} : nested 0 token = .ok (v, []) → Rearranged token token
  | padded {s t a b a' b' : List Char} : Blank a → Blank b → Blank a' → Blank b' →
      Rearranged s t → Rearranged (a ++ (s ++ b)) (a' ++ (t ++ b'))
  | array {items : List (List Char × List Char)} {gap gap' : List Char} : Blank gap → Blank gap' →
      (∀ item ∈ items, Rearranged item.1 item.2) →
      Rearranged (bracketed '[' ']' gap (items.map Prod.fst))
        (bracketed '[' ']' gap' (items.map Prod.snd))
  | object {members others : List SharedMember} {gap gap' : List Char} : Blank gap → Blank gap' →
      (members.map SharedMember.key).Nodup → members.Perm others →
      (∀ m ∈ members, Rearranged m.first.value m.second.value) →
      Rearranged (bracketed '\x7b' '\x7d' gap (members.map fun m => m.first.chars m.name))
        (bracketed '\x7b' '\x7d' gap' (others.map fun m => m.second.chars m.name))

theorem nested_of_blank {levels : Nat} {cs : List Char} (h : skipBlanks cs = []) :
    nested levels cs = .error .unfinished := by
  cases levels <;> simp [nested, value, h]

namespace Writes

theorem token {token : List Char} {v : Json} (h : nested 0 token = .ok (v, [])) :
    Writes token v := by
  cases hskip : skipBlanks token with
  | nil => simp [nested_of_blank hskip] at h
  | cons c cs =>
    obtain ⟨hc, gap, hgap, rfl⟩ := exists_gap_of_skipBlanks hskip
    rw [nested, hgap.value_append] at h
    obtain ⟨hnesting, hclosing, front, hfront, hmore⟩ := value_of_token hc h
    rw [List.append_nil] at hfront
    subst hfront
    refine ⟨⟨c, cs, hskip, hclosing⟩, fun levels => ⟨[], blank_nil, fun rest hrest => ?_⟩⟩
    rw [hnesting, List.append_assoc]
    cases levels <;> exact (hgap.value_append ..).trans (hmore _ _ rest hrest)

theorem padded {text a b : List Char} {v : Json} (h : Writes text v) (ha : Blank a)
    (hb : Blank b) : Writes (a ++ (text ++ b)) v := by
  obtain ⟨c, cs, hskip, hclosing⟩ := h.opens
  refine ⟨⟨c, cs ++ b, ?_, hclosing⟩, fun levels => ?_⟩
  · rw [ha.skipBlanks_append, skipBlanks_append hskip]
  · obtain ⟨behind, hbehind, hreads⟩ := h.reads levels
    refine ⟨behind ++ b, List.forall_mem_append.2 ⟨hbehind, hb⟩, fun rest hrest => ?_⟩
    rw [List.append_assoc, List.append_assoc, ← nested_skipBlanks, ha.skipBlanks_append,
      nested_skipBlanks, hreads _ (hb.ends_append hrest), List.append_assoc]

theorem array {ι : Type} {text : ι → List Char} {made : ι → Json} {xs : List ι} {gap : List Char}
    (hgap : Blank gap) (hitem : ∀ x ∈ xs, Writes (text x) (made x)) :
    Writes (bracketed '[' ']' gap (xs.map text)) (.array (xs.map made)) := by
  refine ⟨⟨_, _, rfl, nofun⟩, fun levels => ⟨[], blank_nil, fun rest _ => ?_⟩⟩
  cases levels with
  | zero => rfl
  | succ levels =>
    have hall := nested_array (fun x hx => (hitem x hx).reads levels)
      (fun x hx => (hitem x hx).opens) hgap rest
    simpa [bracketed] using hall

theorem opens_memberText {gap : List Char} (hgap : Blank gap) (name colonGap text : List Char) :
    Opens (memberText gap name colonGap text) :=
  ⟨'"', _, (hgap.skipBlanks_append _).trans (skipBlanks_cons (by decide) _), nofun⟩

theorem object {side : SharedMember → MemberText} {made : SharedMember → Json}
    {members : List SharedMember} {gap : List Char} (hgap : Blank gap)
    (hmember : ∀ m ∈ members, Writes (side m).value (made m)) :
    Writes (bracketed '\x7b' '\x7d' gap (members.map fun m => (side m).chars m.name))
      (.object (members.map fun m => (m.key, made m))) := by
  refine ⟨⟨_, _, rfl, nofun⟩, fun levels => ⟨[], blank_nil, fun rest _ => ?_⟩⟩
  cases levels with
  | zero => rfl
  | succ levels =>
    have hall := nested_object (fun m hm => member_memberText (side m).blank_gap
      (side m).blank_colonGap m.reads ((hmember m hm).reads levels))
      (fun m _ => opens_memberText (side m).blank_gap ..) hgap rest
    simpa [bracketed, MemberText.chars] using hall

end Writes

theorem Rearranged.writes {s t : List Char} (h : Rearranged s t) :
    ∃ v w, Writes s v ∧ Writes t w ∧ Reordered v w := by
  induction h with
  | @token _ v hread => exact ⟨v, v, .token hread, .token hread, rfl, rfl⟩
  | padded ha hb ha' hb' _ ih =>
    obtain ⟨v, w, hv, hw, hsame⟩ := ih
    exact ⟨v, w, hv.padded ha hb, hw.padded ha' hb', hsame⟩
  | @array items gap gap' hgap hgap' _ ih =>
    choose! v w hv hw hsame using ih
    exact ⟨_, _, .array hgap hv, .array hgap' hw, .array hsame⟩
  | @object members others gap gap' hgap hgap' hkeys hperm _ ih =>
    choose! v w hv hw hsame using ih
    have hothers : ∀ m ∈ others, Writes m.second.value (w m) :=
      fun m hm => hw m (hperm.mem_iff.2 hm)
    exact ⟨_, _, .object hgap hv, .object hgap' hothers, .object hkeys hperm hsame⟩

end Text

end ConfiguredPredicates.Json
