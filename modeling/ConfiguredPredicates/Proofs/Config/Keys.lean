import ConfiguredPredicates.Config.View

/-!
Well-formed keys. The segments of a key joined by points are the key again, none of
them is empty, and every character of a key is a point or may stand in a segment. What
is joined by points is split into the same parts, and two keys into the parts of both.
-/

namespace ConfiguredPredicates.ConfigKey

def isSegmentChar (c : Char) : Bool := isLetter c || c.isDigit || isJoint c

theorem eq_first_append_others (key : List Char) :
    key = (split key).1 ++ (split key).2.flatMap ('.' :: ·) := by
  induction key with
  | nil => rfl
  | cons c cs ih =>
    rw [split]
    by_cases heq : c = '.'
    · simp [heq, ← ih]
    · simp [heq, ← ih]

theorem intercalate_parts (key : List Char) : ['.'].intercalate (parts key) = key := by
  suffices h : ∀ (first : List Char) (others : List (List Char)),
      ['.'].intercalate (first :: others) = first ++ others.flatMap ('.' :: ·) by
    rw [parts, h, ← eq_first_append_others]
  intro first others
  induction others generalizing first with
  | nil => simp
  | cons next rest ih => simp [List.intercalate_cons_cons, ih]

theorem split_append_point (front back : List Char) :
    split (front ++ '.' :: back) = ((split front).1, (split front).2 ++ parts back) := by
  induction front with
  | nil => simp [split, parts]
  | cons c cs ih => by_cases heq : c = '.' <;> simp [split, ih, heq]

theorem parts_append_point (front back : List Char) :
    parts (front ++ '.' :: back) = parts front ++ parts back := by
  simp [parts, split_append_point]

theorem parts_of_point_not_mem {key : List Char} (h : '.' ∉ key) : parts key = [key] := by
  induction key with
  | nil => rfl
  | cons c cs ih =>
    obtain ⟨hc, hcs⟩ := List.ne_and_not_mem_of_not_mem_cons h
    have hsplit : split cs = (cs, []) := by simpa [parts, Prod.ext_iff] using ih hcs
    simp [parts, split, hsplit, hc.symm]

/-- Without points inside, what is joined by points is split again. -/
theorem parts_intercalate {segments : List (List Char)} (hne : segments ≠ [])
    (hpoint : ∀ segment ∈ segments, '.' ∉ segment) :
    parts (['.'].intercalate segments) = segments := by
  induction segments with
  | nil => exact absurd rfl hne
  | cons segment rest ih =>
    obtain ⟨hsegment, hrest⟩ := List.forall_mem_cons.1 hpoint
    have hparts := parts_of_point_not_mem hsegment
    cases rest with
    | nil => simpa using hparts
    | cons next others =>
      have hothers := ih (List.cons_ne_nil next others) hrest
      rw [List.intercalate_cons_cons, List.append_assoc, List.singleton_append,
        parts_append_point, hparts, hothers, List.singleton_append]

theorem isSegmentChar_of_mem_tail {cs : List Char} (h : isSegmentTail cs = true) :
    ∀ c ∈ cs, isSegmentChar c = true := by
  fun_induction isSegmentTail cs <;> grind [isSegmentChar]

theorem isSegmentChar_of_mem {cs : List Char} (h : isSegment cs = true) :
    ∀ c ∈ cs, isSegmentChar c = true := by
  cases cs with
  | nil => simp
  | cons c cs =>
    simp only [isSegment, Bool.and_eq_true] at h
    refine List.forall_mem_cons.2 ⟨by simp [isSegmentChar, h.1], isSegmentChar_of_mem_tail h.2⟩

theorem segments?_eq_some_iff {key : String} {names : List String} :
    segments? key = some names ↔
      (∀ part ∈ parts key.toList, isSegment part = true) ∧
        names = (parts key.toList).map String.ofList := by
  rw [segments?, List.all_eq_true.symm]
  split
  · next hall => simp [hall, eq_comm]
  · next hall => simp [hall]

theorem segments_eq_ok_iff {key : String} {names : List String} :
    segments key = .ok names ↔ segments? key = some names := by
  unfold segments
  cases segments? key <;> simp

theorem segments_eq_error_iff {key : String} {e : ConfigError} :
    segments key = .error e ↔ segments? key = none ∧ e = .malformedKey key := by
  unfold segments
  cases segments? key <;> simp [eq_comm]

theorem join_of_segments? {key : String} {names : List String}
    (h : segments? key = some names) : join names = key := by
  obtain ⟨-, rfl⟩ := segments?_eq_some_iff.1 h
  have hparts : (parts key.toList).map (String.toList ∘ String.ofList) = parts key.toList := by
    simp [Function.comp_def]
  rw [← String.toList_inj, join, String.toList_intercalate, List.map_map, hparts]
  exact intercalate_parts key.toList

theorem point_or_mem_part {key : List Char} {c : Char} (hc : c ∈ key) :
    c = '.' ∨ ∃ part ∈ parts key, c ∈ part := by
  rw [eq_first_append_others key, List.mem_append, List.mem_flatMap] at hc
  rcases hc with hc | ⟨part, hpart, hc⟩
  · exact .inr ⟨_, List.mem_cons_self, hc⟩
  · rcases List.mem_cons.1 hc with rfl | hc
    · exact .inl rfl
    · exact .inr ⟨part, List.mem_cons_of_mem _ hpart, hc⟩

theorem mem_of_mem_part {key part : List Char} {c : Char} (hpart : part ∈ parts key)
    (hc : c ∈ part) : c ∈ key := by
  rw [eq_first_append_others key, List.mem_append, List.mem_flatMap]
  rcases List.mem_cons.1 hpart with rfl | hpart
  · exact .inl hc
  · exact .inr ⟨part, hpart, List.mem_cons_of_mem _ hc⟩

theorem point_or_isSegmentChar {key : String} {names : List String} {c : Char}
    (h : segments? key = some names) (hc : c ∈ key.toList) : c = '.' ∨ isSegmentChar c = true := by
  obtain ⟨hsegments, -⟩ := segments?_eq_some_iff.1 h
  refine (point_or_mem_part hc).imp_right fun ⟨part, hpart, hmem⟩ => ?_
  exact isSegmentChar_of_mem (hsegments part hpart) c hmem

theorem bracket_not_mem {key : String} {names : List String} (h : segments? key = some names) :
    '[' ∉ key.toList := by
  intro hmem
  have hchar := point_or_isSegmentChar h hmem
  revert hchar
  decide

end ConfiguredPredicates.ConfigKey
