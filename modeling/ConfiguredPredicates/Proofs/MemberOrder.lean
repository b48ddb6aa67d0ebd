import ConfiguredPredicates.Proofs.Documents
import ConfiguredPredicates.Proofs.Written.Accepted

/-!
Member order. Texts that differ in blanks and in the order of members are the same document:
the value, the predicate, the condition and the violation do not tell them apart.
-/

namespace ConfiguredPredicates

open Json.Text (Blank Writes Rearranged maxNesting ifFits)

namespace Json

variable {text other : String} {v : Json}

theorem ofText_of_writes (h : Writes text.toList v) :
    ofText text = if v.nesting ≤ maxNesting then .ok v.canonical else .error .malformed := by
  obtain ⟨behind, hbehind, hreads⟩ := h.reads maxNesting
  have hwritten := hreads [] Text.NumberLiteral.ends_nil
  rw [List.append_nil, List.append_nil] at hwritten
  have hread : Text.read text.toList = ifFits (v.nesting ≤ maxNesting) v.canonical behind := by
    rw [Text.read, Text.readWritten, hwritten]
    exact Text.bind_ifFits _ v behind canonical
  by_cases hfits : v.nesting ≤ maxNesting
  · rw [if_pos hfits]
    rw [decide_eq_true hfits] at hread
    exact ofText_of_blank hread hbehind
  · rw [if_neg hfits]
    rw [decide_eq_false hfits] at hread
    exact ofText_of_fault hread

theorem ofText_of_rearranged (h : Rearranged text.toList other.toList) :
    ofText text = ofText other := by
  obtain ⟨v, w, hv, hw, hsame⟩ := h.writes
  rw [ofText_of_writes hv, ofText_of_writes hw, hsame.canonical, hsame.nesting]

end Json

inductive SameVerdict {α : Type} : Except TextError α → Except TextError α → Prop
  | ok (a : α) : SameVerdict (.ok a) (.ok a)
  | rejected (x : Violation) : SameVerdict (.error (.rejected x)) (.error (.rejected x))

theorem sameVerdict_of_ofText {α : Type} (read : Json → Except Violation α) {s t : String}
    {v : Json} (hs : Json.ofText s = .ok v) (ht : Json.ofText t = .ok v) :
    SameVerdict (readDocument read s) (readDocument read t) := by
  rw [readDocument_of_ofText hs, readDocument_of_ofText ht]
  cases read v with
  | ok a => exact .ok a
  | error x => exact .rejected x

/-- Texts that are accepted and differ in blanks and in the order of members alone are read
alike. Every accepted text with distinct keys is among the texts that this is said of. -/
theorem sameVerdict_of_rearranged :
    (∀ (text : String) (v : Json) (rest : List Char),
      Json.Text.readWritten text.toList = .ok (v, rest) → Blank rest → v.DistinctKeys →
      Rearranged text.toList text.toList) ∧
    ∀ s t : String, Rearranged s.toList t.toList →
      Json.ofText s = Json.ofText t ∧ ∀ v, Json.ofText s = .ok v →
        SameVerdict (Predicate.ofText s) (Predicate.ofText t) ∧
        SameVerdict (Condition.ofText s) (Condition.ofText t) := by
  refine ⟨fun text v rest hread hrest hkeys => Json.Text.rearranged_self hkeys hread hrest,
    fun s t h => ?_⟩
  have hsame := Json.ofText_of_rearranged h
  exact ⟨hsame, fun v hs => ⟨sameVerdict_of_ofText _ hs (hsame ▸ hs),
    sameVerdict_of_ofText _ hs (hsame ▸ hs)⟩⟩

theorem sameVerdict_of_rearranged_swapped :
    let s := "\x7b\"b\":null,\"a\":null\x7d"
    let t := " \x7b\"a\" :null, \"b\":null\x7d"
    let x : Violation := ⟨⟨[.key "a"]⟩, .unexpected .condition .null⟩
    Rearranged s.toList s.toList ∧ Rearranged s.toList t.toList ∧
      Predicate.ofText s = .error (.rejected x) ∧
      SameVerdict (.error (.rejected x)) (Predicate.ofText t) := by
  intro s t x
  obtain ⟨hself, hsame⟩ := sameVerdict_of_rearranged
  have hblank : Blank [' '] := by simp [Blank, Json.Text.isBlank]
  let tight : Json.Text.MemberText :=
    ⟨[], [], ['n', 'u', 'l', 'l'], Json.Text.blank_nil, Json.Text.blank_nil⟩
  let first : Json.Text.SharedMember := ⟨"b", ['b', '"'], rfl, tight,
    { tight with gap := [' '], blank_gap := hblank }⟩
  let second : Json.Text.SharedMember := ⟨"a", ['a', '"'], rfl, tight,
    { tight with colonGap := [' '], blank_colonGap := hblank }⟩
  have hrearranged : Rearranged s.toList t.toList := by
    have hnull : Rearranged ['n', 'u', 'l', 'l'] ['n', 'u', 'l', 'l'] := .token (v := .null) rfl
    have hobject := Rearranged.object Json.Text.blank_nil Json.Text.blank_nil
      (by simp [first, second]) (.swap second first [])
      (List.forall_mem_cons.2 ⟨hnull, List.forall_mem_singleton.2 hnull⟩)
    have hpadded := Rearranged.padded Json.Text.blank_nil Json.Text.blank_nil hblank
      Json.Text.blank_nil hobject
    simpa [s, t, first, second, tight, Json.Text.bracketed, Json.commaSeparated,
      Json.Text.MemberText.chars, Json.Text.memberText] using hpadded
  have hchars : s.toList = '\x7b' :: ['"', 'b', '"', ':', 'n', 'u', 'l', 'l'] ++
      ',' :: ['"', 'a', '"', ':', 'n', 'u', 'l', 'l'] ++ ['\x7d'] := by decide +kernel
  have hwritten : Json.Text.readWritten s.toList =
      .ok (.object [("b", .null), ("a", .null)], []) := by
    rw [hchars]
    rfl
  have hdistinct : (Json.object [("b", .null), ("a", .null)]).DistinctKeys :=
    .object (by decide) (by simp [Json.DistinctKeys.null])
  have hcanonical : (Json.object [("b", .null), ("a", .null)]).canonical =
      .object [("a", .null), ("b", .null)] := by
    have hlt : "a" < "b" := by decide
    change Json.object (Entries.insert "a" .null [("b", .null)]) = _
    rw [Entries.insert, if_pos hlt]
  have hwhole : Json.ofText s = .ok (.object [("a", .null), ("b", .null)]) := by
    rw [Json.ofText, Json.Text.read, hwritten]
    exact congrArg Except.ok hcanonical
  have hverdict := ((hsame s t hrearranged).2 _ hwhole).1
  have hrejected : Predicate.ofText s = .error (.rejected x) := by
    rw [Predicate.ofText, readDocument_of_ofText hwhole]
    rfl
  exact ⟨hself s _ [] hwritten Json.Text.blank_nil hdistinct, hrearranged, hrejected,
    hrejected ▸ hverdict⟩

end ConfiguredPredicates
