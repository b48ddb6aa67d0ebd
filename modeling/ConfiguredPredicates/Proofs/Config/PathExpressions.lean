import ConfiguredPredicates.Config.Layered
import ConfiguredPredicates.Proofs.Config.Keys
import ConfiguredPredicates.Proofs.Digits

/-!
Path expressions beside keys. The grammar of keys lies within that of path expressions
as far as their letters are ASCII, with the segments as steps; with any other letter a
key is no path expression. A path expression of one step is the name of that step.
-/

namespace ConfiguredPredicates

namespace PathExpression

theorem lt_of_isIdentifierChar {c : Char} (h : isIdentifierChar c = true) : c.toNat < 128 := by
  have hranges : c.isAlphanum = (decide (65 ≤ c.val ∧ c.val ≤ 90) ||
      decide (97 ≤ c.val) && decide (c.val ≤ 122) ||
      decide (48 ≤ c.val) && decide (c.val ≤ 57)) := rfl
  simp only [isIdentifierChar, hranges, Bool.or_eq_true, Bool.and_eq_true, decide_eq_true_eq,
    UInt32.le_iff_toNat_le] at h
  rcases h with (((⟨-, h⟩ | ⟨-, h⟩) | ⟨-, h⟩) | rfl) | rfl
  · exact Nat.lt_of_le_of_lt h (by decide)
  · exact Nat.lt_of_le_of_lt h (by decide)
  · exact Nat.lt_of_le_of_lt h (by decide)
  · decide
  · decide

theorem identifier?_append {name rest : List Char} (hne : name ≠ [])
    (hname : ∀ c ∈ name, isIdentifierChar c = true)
    (hrest : ∀ c ∈ rest.head?, isIdentifierChar c = false) :
    identifier? (name ++ rest) = some (.key (String.ofList name), rest) := by
  rw [identifier?, Text.span_append hname hrest]
  cases name with
  | nil => exact absurd rfl hne
  | cons => rfl

theorem exists_of_identifier? {cs rest : List Char} {step : PathStep}
    (h : identifier? cs = some (step, rest)) :
    ∃ name, name ≠ [] ∧ (∀ c ∈ name, isIdentifierChar c = true) ∧ cs = name ++ rest ∧
      step = .key (String.ofList name) := by
  rw [identifier?] at h
  split at h
  · cases h
  · next name rest hne hspan =>
    cases h
    obtain ⟨rfl, hname⟩ := Text.eq_append_of_span hspan
    exact ⟨name, hne, hname, rfl, rfl⟩

theorem not_isIdentifierChar_point : isIdentifierChar '.' = false := by decide

theorem not_isIdentifierChar_of_mem_head? (parts : List (List Char)) :
    ∀ c ∈ (parts.flatMap ('.' :: ·)).head?, isIdentifierChar c = false := by
  cases parts with
  | nil => simp
  | cons part rest => simp [not_isIdentifierChar_point]

theorem steps?_points {fuel : Nat} {parts : List (List Char)}
    (hparts : ∀ part ∈ parts, part ≠ [] ∧ ∀ c ∈ part, isIdentifierChar c = true)
    (hfuel : (parts.flatMap ('.' :: ·)).length ≤ fuel) :
    steps? fuel (parts.flatMap ('.' :: ·)) =
      some (parts.map fun part => .key (String.ofList part)) := by
  induction parts generalizing fuel with
  | nil => cases fuel <;> rfl
  | cons part rest ih =>
    obtain ⟨⟨hne, hpart⟩, hrest⟩ := List.forall_mem_cons.1 hparts
    rw [List.flatMap_cons, List.cons_append, List.length_cons, List.length_append] at hfuel
    cases fuel with
    | zero => omega
    | succ fuel =>
      have hidentifier := identifier?_append hne hpart (not_isIdentifierChar_of_mem_head? rest)
      have hothers := ih hrest (show _ ≤ fuel by omega)
      simp [steps?, hidentifier, hothers]

/-- Without brackets a path expression is made of identifiers and points alone. -/
theorem isIdentifierChar_or_point_of_steps? {fuel : Nat} {cs : List Char} {path : List PathStep}
    (hbracket : '[' ∉ cs) (h : steps? fuel cs = some path) :
    ∀ c ∈ cs, isIdentifierChar c = true ∨ c = '.' := by
  induction fuel generalizing cs path with
  | zero =>
    cases cs with
    | nil => simp
    | cons => cases h
  | succ fuel ih =>
    cases cs with
    | nil => simp
    | cons c cs =>
      have hc : c ≠ '[' := fun heq => hbracket (by simp [heq])
      by_cases hpoint : c = '.'
      · simp only [steps?, hpoint, if_true, Option.bind_eq_bind, Option.bind_eq_some_iff] at h
        obtain ⟨⟨step, rest⟩, hstep, others, hothers, -⟩ := h
        obtain ⟨name, -, hname, rfl, -⟩ := exists_of_identifier? hstep
        have hrest := ih (fun hmem => hbracket (by simp [hmem])) hothers
        rw [List.forall_mem_cons, List.forall_mem_append]
        exact ⟨.inr hpoint, fun d hd => .inl (hname d hd), hrest⟩
      · simp [steps?, hpoint, hc] at h

theorem eq_nil_of_steps? {fuel : Nat} {cs : List Char} (h : steps? fuel cs = some []) :
    cs = [] := by
  cases cs with
  | nil => rfl
  | cons c cs =>
    cases fuel with
    | zero => cases h
    | succ fuel =>
      by_cases hpoint : c = '.'
      · simp [steps?, hpoint, Option.bind_eq_some_iff] at h
      · by_cases hbracket : c = '[' <;>
          simp [steps?, hpoint, hbracket, Option.bind_eq_some_iff] at h

end PathExpression

open PathExpression

def isForeignLetter (c : Char) : Bool := c = '\u017f' || c = '\u212a'

theorem isIdentifierChar_of_isSegmentChar {c : Char} (hc : ConfigKey.isSegmentChar c = true)
    (hforeign : isForeignLetter c = false) : isIdentifierChar c = true := by
  simp only [ConfigKey.isSegmentChar, ConfigKey.isLetter, ConfigKey.isJoint, isForeignLetter,
    isIdentifierChar, Char.isAlphanum, Bool.or_eq_true, Bool.or_eq_false_iff, decide_eq_true_eq,
    decide_eq_false_iff_not] at *
  tauto

theorem not_identifier_of_isForeignLetter {c : Char} (h : isForeignLetter c = true) :
    isIdentifierChar c = false ∧ c ≠ '.' := by
  simp only [isForeignLetter, Bool.or_eq_true, decide_eq_true_eq] at h
  rcases h with rfl | rfl <;> decide

theorem pathExpression?_of_segments? {key : String} {names : List String}
    (hnames : ConfigKey.segments? key = some names)
    (hforeign : ∀ c ∈ key.toList, isForeignLetter c = false) :
    pathExpression? key = some (names.map .key) := by
  obtain ⟨hsegments, rfl⟩ := ConfigKey.segments?_eq_some_iff.1 hnames
  have hparts : ∀ part ∈ ConfigKey.parts key.toList,
      part ≠ [] ∧ ∀ c ∈ part, isIdentifierChar c = true := by
    intro part hpart
    have hsegment := hsegments part hpart
    refine ⟨fun hnil => by simp [hnil, ConfigKey.isSegment] at hsegment, fun c hc => ?_⟩
    have hmem := ConfigKey.mem_of_mem_part hpart hc
    exact isIdentifierChar_of_isSegmentChar (ConfigKey.isSegmentChar_of_mem hsegment c hc)
      (hforeign c hmem)
  obtain ⟨⟨hne, hfirst⟩, hothers⟩ := List.forall_mem_cons.1 hparts
  have hkey := congrArg ofChars? (ConfigKey.eq_first_append_others key.toList)
  have hidentifier := identifier?_append hne hfirst
    (not_isIdentifierChar_of_mem_head? (ConfigKey.split key.toList).2)
  have hsteps := steps?_points hothers (Nat.le_refl _)
  rw [pathExpression?, hkey]
  simp only [ofChars?, hidentifier, hsteps, Option.bind_eq_bind, Option.bind_some,
    ConfigKey.parts, List.map_cons, List.map_map, Function.comp_def]

theorem pathExpression?_eq_none {key : String} {names : List String} {c : Char}
    (hnames : ConfigKey.segments? key = some names) (hc : c ∈ key.toList)
    (hforeign : isForeignLetter c = true) : pathExpression? key = none := by
  cases hpath : pathExpression? key with
  | none => rfl
  | some path =>
    exfalso
    simp only [pathExpression?, ofChars?, Option.bind_eq_bind, Option.bind_eq_some_iff] at hpath
    obtain ⟨⟨first, rest⟩, hfirst, others, hothers, -⟩ := hpath
    obtain ⟨name, -, hname, hkey, -⟩ := exists_of_identifier? hfirst
    have hbracket : '[' ∉ key.toList := ConfigKey.bracket_not_mem hnames
    have hrest := isIdentifierChar_or_point_of_steps?
      (fun hmem => hbracket (by rw [hkey]; simp [hmem])) hothers
    obtain ⟨hidentifier, hpoint⟩ := not_identifier_of_isForeignLetter hforeign
    rw [hkey, List.mem_append] at hc
    rcases hc with hc | hc
    · simp [hname c hc] at hidentifier
    · rcases hrest c hc with h | h
      · simp [h] at hidentifier
      · exact hpoint h

/-- The key names one place of a table: it is no path expression of several steps. -/
def IsSingleStep (key : String) : Prop :=
  ∀ path, pathExpression? key = some path → path.length ≤ 1

theorem exists_first_step {key : String} {path : List PathStep}
    (h : pathExpression? key = some path) :
    ∃ name rest, path = .key name :: rest ∧ IsSingleStep name ∧ (rest = [] → name = key) := by
  simp only [pathExpression?, ofChars?, Option.bind_eq_bind, Option.bind_eq_some_iff] at h
  obtain ⟨⟨first, behind⟩, hfirst, others, hothers, hpath⟩ := h
  obtain ⟨name, hne, hname, hkey, rfl⟩ := exists_of_identifier? hfirst
  refine ⟨String.ofList name, others, (Option.some.inj hpath).symm, ?_, ?_⟩
  · have hidentifier : identifier? (name ++ []) = _ := identifier?_append hne hname (by simp)
    rw [List.append_nil] at hidentifier
    intro path hsame
    simp only [pathExpression?, String.toList_ofList, ofChars?, hidentifier, steps?,
      Option.bind_eq_bind, Option.bind_some, Option.some.injEq] at hsame
    rw [← hsame, List.length_singleton]
  · rintro rfl
    have hbehind : behind = [] := eq_nil_of_steps? hothers
    rw [hbehind, List.append_nil] at hkey
    rw [← hkey, String.ofList_toList]

theorem IsSingleStep.topLevelPath {key : String} (h : IsSingleStep key) :
    Setting.topLevelPath key = [.key key] := by
  rw [Setting.topLevelPath]
  cases hpath : pathExpression? key with
  | none => rfl
  | some path =>
    obtain ⟨name, rest, rfl, -, hname⟩ := exists_first_step hpath
    have hlength := h _ hpath
    obtain rfl : rest = [] := List.length_eq_zero_iff.1 (by simpa using hlength)
    rw [hname rfl, Option.getD_some]

theorem exists_topLevelPath (key : String) :
    ∃ name rest, Setting.topLevelPath key = .key name :: rest ∧ IsSingleStep name := by
  rw [Setting.topLevelPath]
  cases hpath : pathExpression? key with
  | none => exact ⟨key, [], rfl, fun path hsome => by simp [hpath] at hsome⟩
  | some path =>
    obtain ⟨name, rest, rfl, hname, -⟩ := exists_first_step hpath
    exact ⟨name, rest, rfl, hname⟩

end ConfiguredPredicates
