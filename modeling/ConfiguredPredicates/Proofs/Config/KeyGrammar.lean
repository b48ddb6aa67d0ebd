import ConfiguredPredicates.Proofs.Config.Keys
import Mathlib.Computability.Language
import Mathlib.Order.CompletePartialOrder

/-!
The grammar of keys, told without the check that runs. A segment is what a regular
expression matches, and the same is said of its characters one by one: a letter first,
and a letter right behind every joint. A key is accepted exactly when it is such
segments joined by points, and those are its segments.
-/

namespace ConfiguredPredicates.ConfigKey

open scoped Computability

/-- A letter of ASCII in either case, the long s or the Kelvin sign. -/
def Letter (c : Char) : Prop :=
  ('A' ≤ c ∧ c ≤ 'Z') ∨ ('a' ≤ c ∧ c ≤ 'z') ∨ c = '\u017f' ∨ c = '\u212a'

def Digit (c : Char) : Prop := '0' ≤ c ∧ c ≤ '9'

def Joint (c : Char) : Prop := c = '-' ∨ c = '_'

def Begins (cs : List Char) : Prop := ∃ c rest, cs = c :: rest ∧ Letter c

def JointsLinked (cs : List Char) : Prop :=
  ∀ front joint back, cs = front ++ joint :: back → Joint joint → Begins back

structure SegmentShape (cs : List Char) : Prop where
  begins : Begins cs
  chars : ∀ c ∈ cs, Letter c ∨ Digit c ∨ Joint c
  linked : JointsLinked cs

def single (P : Char → Prop) : Language Char := {cs | ∃ c, P c ∧ cs = [c]}

/-- Words are matched by `[a-z][a-z0-9]*`, whatever the case of the letters. -/
def wordGrammar : Language Char := single Letter * (single fun c => Letter c ∨ Digit c)∗

/-- Segments are matched by `[a-z][a-z0-9]*(?:[-_][a-z][a-z0-9]*)*`, whatever the case. -/
def segmentGrammar : Language Char := wordGrammar * (single Joint * wordGrammar)∗

theorem isLetter_iff {c : Char} : isLetter c = true ↔ Letter c := by
  have hranges : c.isAlpha = (decide ('A'.val ≤ c.val ∧ c.val ≤ 'Z'.val) ||
      decide ('a'.val ≤ c.val) && decide (c.val ≤ 'z'.val)) := rfl
  simp [isLetter, Letter, hranges, Char.le_def, or_assoc]

theorem isDigit_iff {c : Char} : c.isDigit = true ↔ Digit c := by
  simp [Char.isDigit, Digit, Char.le_def]

theorem isJoint_iff {c : Char} : isJoint c = true ↔ Joint c := by
  simp [isJoint, Joint]

theorem Letter.not_joint {c : Char} (h : Letter c) : ¬ Joint c := by
  rintro (rfl | rfl) <;> revert h <;> simp [Letter]

theorem Digit.not_joint {c : Char} (h : Digit c) : ¬ Joint c := by
  rintro (rfl | rfl) <;> revert h <;> simp [Digit]

theorem begins_cons {c : Char} {cs : List Char} : Begins (c :: cs) ↔ Letter c := by
  simp [Begins]

theorem not_begins_nil : ¬ Begins [] := by
  simp [Begins]

theorem jointsLinked_nil : JointsLinked [] := by
  simp [JointsLinked]

theorem jointsLinked_cons {c : Char} {cs : List Char} :
    JointsLinked (c :: cs) ↔ (Joint c → Begins cs) ∧ JointsLinked cs := by
  constructor
  · exact fun h => ⟨h [] c cs rfl, fun front joint back hcs =>
      h (c :: front) joint back (by rw [hcs, List.cons_append])⟩
  · rintro ⟨hc, hcs⟩ front joint back heq hjoint
    cases front with
    | nil =>
      obtain ⟨rfl, rfl⟩ := List.cons.inj heq
      exact hc hjoint
    | cons d rest =>
      obtain ⟨rfl, hrest⟩ := List.cons.inj heq
      exact hcs rest joint back hrest hjoint

theorem jointsLinked_cons_of_not {c : Char} {cs : List Char} (hc : ¬ Joint c) :
    JointsLinked (c :: cs) ↔ JointsLinked cs := by
  rw [jointsLinked_cons, and_iff_right fun h => absurd h hc]

-- The cases are those of the check, which takes a joint and the letter behind it in one step.
theorem isSegmentTail_iff {cs : List Char} :
    isSegmentTail cs = true ↔ (∀ c ∈ cs, Letter c ∨ Digit c ∨ Joint c) ∧ JointsLinked cs := by
  fun_induction isSegmentTail cs with
  | case1 => simp [jointsLinked_nil]
  | case2 c cs hc ih =>
    rw [Bool.or_eq_true, isLetter_iff, isDigit_iff] at hc
    have hjoint : ¬ Joint c := hc.elim Letter.not_joint Digit.not_joint
    have hchar : Letter c ∨ Digit c ∨ Joint c := hc.imp_right .inl
    rw [ih, List.forall_mem_cons, jointsLinked_cons_of_not hjoint, and_iff_right hchar]
  | case3 c hc d cs hjoint ih =>
    rw [isJoint_iff] at hjoint
    rw [Bool.and_eq_true, isLetter_iff, ih, List.forall_mem_cons, List.forall_mem_cons,
      jointsLinked_cons, begins_cons]
    constructor
    · rintro ⟨hd, hchars, hlinked⟩
      exact ⟨⟨.inr (.inr hjoint), .inl hd, hchars⟩, fun _ => hd,
        (jointsLinked_cons_of_not hd.not_joint).2 hlinked⟩
    · rintro ⟨⟨-, -, hchars⟩, hd, hlinked⟩
      exact ⟨hd hjoint, hchars, (jointsLinked_cons_of_not (hd hjoint).not_joint).1 hlinked⟩
  | case4 c cs hc hother =>
    rw [Bool.or_eq_true, isLetter_iff, isDigit_iff, not_or] at hc
    rw [List.forall_mem_cons, jointsLinked_cons]
    refine iff_of_false Bool.false_ne_true ?_
    rintro ⟨⟨hletter | hdigit | hjoint, -⟩, hbegins, -⟩
    · exact hc.1 hletter
    · exact hc.2 hdigit
    · obtain ⟨d, rest, rfl, -⟩ := hbegins hjoint
      exact hother d rest (isJoint_iff.2 hjoint) rfl

theorem isSegment_iff_shape {cs : List Char} : isSegment cs = true ↔ SegmentShape cs := by
  cases cs with
  | nil => exact iff_of_false Bool.false_ne_true fun h => not_begins_nil h.begins
  | cons c cs =>
    rw [isSegment, Bool.and_eq_true, isLetter_iff, isSegmentTail_iff]
    constructor
    · rintro ⟨hc, hchars, hlinked⟩
      exact ⟨begins_cons.2 hc, List.forall_mem_cons.2 ⟨.inl hc, hchars⟩,
        (jointsLinked_cons_of_not hc.not_joint).2 hlinked⟩
    · rintro ⟨hbegins, hchars, hlinked⟩
      have hc := begins_cons.1 hbegins
      exact ⟨hc, (List.forall_mem_cons.1 hchars).2,
        (jointsLinked_cons_of_not hc.not_joint).1 hlinked⟩

theorem mem_single_mul {P : Char → Prop} {l : Language Char} {cs : List Char} :
    cs ∈ single P * l ↔ ∃ c rest, cs = c :: rest ∧ P c ∧ rest ∈ l := by
  rw [Language.mem_mul]
  constructor
  · rintro ⟨_, ⟨c, hc, rfl⟩, rest, hrest, rfl⟩
    exact ⟨c, rest, rfl, hc, hrest⟩
  · rintro ⟨c, rest, rfl, hc, hrest⟩
    exact ⟨[c], ⟨c, hc, rfl⟩, rest, hrest, rfl⟩

def tailGrammar : Language Char :=
  (single fun c => Letter c ∨ Digit c)∗ * (single Joint * wordGrammar)∗

theorem segmentGrammar_eq : segmentGrammar = single Letter * tailGrammar := by
  rw [segmentGrammar, wordGrammar, tailGrammar, mul_assoc, ← wordGrammar]

theorem nil_mem_tailGrammar : [] ∈ tailGrammar :=
  Language.append_mem_mul (Language.nil_mem_kstar _) (Language.nil_mem_kstar _)

theorem single_mul_tailGrammar_le :
    (single fun c => Letter c ∨ Digit c) * tailGrammar ≤ tailGrammar := by
  rw [tailGrammar, ← mul_assoc]
  exact mul_le_mul_left mul_kstar_le_kstar _

/-- A joint opens another word, and the words before it may be none. -/
theorem joint_mul_tailGrammar_le :
    single Joint * (single Letter * tailGrammar) ≤ tailGrammar :=
  calc single Joint * (single Letter * tailGrammar)
      = single Joint * wordGrammar * (single Joint * wordGrammar)∗ := by
        rw [tailGrammar, wordGrammar]; simp only [mul_assoc]
    _ ≤ (single Joint * wordGrammar)∗ := mul_kstar_le_kstar
    _ ≤ tailGrammar := le_mul_of_one_le_left' one_le_kstar

theorem isSegmentTail_cons {c : Char} (hc : Letter c ∨ Digit c) (cs : List Char) :
    isSegmentTail (c :: cs) = isSegmentTail cs := by
  rw [← isLetter_iff, ← isDigit_iff, ← Bool.or_eq_true] at hc
  rw [isSegmentTail.eq_def]
  exact if_pos hc

theorem isSegmentTail_joint_cons {c d : Char} (hc : Joint c) (hd : Letter d) (cs : List Char) :
    isSegmentTail (c :: d :: cs) = isSegmentTail cs := by
  have hother : ¬ (isLetter c || c.isDigit) = true := by
    rw [Bool.or_eq_true, isLetter_iff, isDigit_iff]
    exact fun h => h.elim Letter.not_joint Digit.not_joint hc
  rw [isSegmentTail.eq_def]
  simp [hother, isJoint_iff.2 hc, isLetter_iff.2 hd]

theorem tailGrammar_le {l : Language Char} (hnil : [] ∈ l)
    (hsingle : (single fun c => Letter c ∨ Digit c) * l ≤ l)
    (hjoint : single Joint * (single Letter * l) ≤ l) : tailGrammar ≤ l := by
  have hone : (1 : Language Char) ≤ l := by
    rintro _ rfl
    exact hnil
  have hword : wordGrammar * l ≤ single Letter * l := by
    rw [wordGrammar, mul_assoc]
    exact mul_le_mul_right (kstar_mul_le_self hsingle) _
  have hjoints : single Joint * wordGrammar * l ≤ l := by
    rw [mul_assoc]
    exact (mul_le_mul_right hword _).trans hjoint
  exact kstar_mul_le (kstar_le_of_mul_le_right hone hjoints) hsingle

theorem isSegmentTail_iff_mem {cs : List Char} : isSegmentTail cs = true ↔ cs ∈ tailGrammar := by
  constructor
  · fun_induction isSegmentTail cs with
    | case1 => exact fun _ => nil_mem_tailGrammar
    | case2 c cs hc ih =>
      intro h
      rw [Bool.or_eq_true, isLetter_iff, isDigit_iff] at hc
      exact single_mul_tailGrammar_le (mem_single_mul.2 ⟨c, cs, rfl, hc, ih h⟩)
    | case3 c hc d cs hjoint ih =>
      intro h
      rw [Bool.and_eq_true, isLetter_iff] at h
      have hrest := mem_single_mul.2 ⟨d, cs, rfl, h.1, ih h.2⟩
      exact joint_mul_tailGrammar_le
        (mem_single_mul.2 ⟨c, d :: cs, rfl, isJoint_iff.1 hjoint, hrest⟩)
    | case4 => simp
  · suffices h : tailGrammar ≤ ({cs | isSegmentTail cs = true} : Set (List Char)) from
      fun hcs => h hcs
    refine tailGrammar_le rfl ?_ ?_
    · intro cs hcs
      obtain ⟨c, rest, rfl, hc, hrest⟩ := mem_single_mul.1 hcs
      exact (isSegmentTail_cons hc rest).trans hrest
    · intro cs hcs
      obtain ⟨c, _, rfl, hc, hcs⟩ := mem_single_mul.1 hcs
      obtain ⟨d, rest, rfl, hd, hrest⟩ := mem_single_mul.1 hcs
      exact (isSegmentTail_joint_cons hc hd rest).trans hrest

theorem isSegment_iff_mem {cs : List Char} : isSegment cs = true ↔ cs ∈ segmentGrammar := by
  rw [segmentGrammar_eq, mem_single_mul]
  cases cs with
  | nil => simp [isSegment]
  | cons c cs => simp [isSegment, isLetter_iff, isSegmentTail_iff_mem]

/-- Segments of the right shape that joined by points are the key. -/
structure Spells (names : List String) (key : String) : Prop where
  nonempty : names ≠ []
  joined : ".".intercalate names = key
  shapes : ∀ name ∈ names, SegmentShape name.toList

theorem SegmentShape.point_not_mem {cs : List Char} (h : SegmentShape cs) : '.' ∉ cs := by
  intro hmem
  have hchar := h.chars '.' hmem
  revert hchar
  simp [Letter, Digit, Joint]

theorem segments?_eq_some_iff_spells {key : String} {names : List String} :
    segments? key = some names ↔ Spells names key := by
  constructor
  · intro h
    have hjoined : ".".intercalate names = key := join_of_segments? h
    obtain ⟨hsegments, rfl⟩ := segments?_eq_some_iff.1 h
    refine ⟨by simp [parts], hjoined, List.forall_mem_map.2 fun part hpart => ?_⟩
    rw [String.toList_ofList]
    exact isSegment_iff_shape.1 (hsegments part hpart)
  · rintro ⟨hne, rfl, hshapes⟩
    -- No name has a point in it, so splitting finds the names again.
    have hparts : parts (".".intercalate names).toList = names.map String.toList := by
      rw [String.toList_intercalate]
      refine parts_intercalate (by simpa using hne) (List.forall_mem_map.2 fun name hname => ?_)
      exact (hshapes name hname).point_not_mem
    rw [segments?_eq_some_iff, hparts, List.forall_mem_map]
    refine ⟨fun name hname => isSegment_iff_shape.2 (hshapes name hname), ?_⟩
    simp [Function.comp_def]

theorem Spells.char_of_mem {names : List String} {key : String} (h : Spells names key) {c : Char}
    (hc : c ∈ key.toList) : c = '.' ∨ Letter c ∨ Digit c ∨ Joint c := by
  obtain ⟨hsegments, -⟩ := segments?_eq_some_iff.1 (segments?_eq_some_iff_spells.2 h)
  refine (point_or_mem_part hc).imp_right fun ⟨part, hpart, hmem⟩ => ?_
  exact (isSegment_iff_shape.1 (hsegments part hpart)).chars c hmem

/-- The keys that are accepted, the segments they have and what is said of all others. No
accepted key has a character that no segment may have, or an empty segment. -/
theorem segments_eq_ok_iff_spells :
    (∀ key names, segments key = .ok names ↔ Spells names key) ∧
    (∀ key e, segments key = .error e ↔
      e = .malformedKey key ∧
        e.message = "Config error: Invalid config key '" ++ key ++ "'" ∧
        ∀ names, ¬ Spells names key) ∧
    (∀ cs, SegmentShape cs ↔ cs ∈ segmentGrammar) ∧
    ∀ key names, segments key = .ok names →
      "" ∉ names ∧ (∀ c ∈ key.toList, c = '.' ∨ Letter c ∨ Digit c ∨ Joint c) ∧
      ∀ c ∈ ['[', ']', ' ', '\n', '\r'], c ∉ key.toList := by
  have hok : ∀ key names, segments key = .ok names ↔ Spells names key := fun key names =>
    segments_eq_ok_iff.trans segments?_eq_some_iff_spells
  refine ⟨hok, fun key e => ?_, fun cs => isSegment_iff_shape.symm.trans isSegment_iff_mem,
    fun key names h => ?_⟩
  · rw [segments_eq_error_iff, Option.eq_none_iff_forall_ne_some]
    simp only [ne_eq, segments?_eq_some_iff_spells]
    constructor
    · rintro ⟨hnone, rfl⟩
      exact ⟨rfl, rfl, hnone⟩
    · rintro ⟨rfl, -, hnone⟩
      exact ⟨hnone, rfl⟩
  · have hspells := (hok key names).1 h
    have houtside : ∀ c ∈ ['[', ']', ' ', '\n', '\r'],
        ¬ (c = '.' ∨ Letter c ∨ Digit c ∨ Joint c) := by
      simp [Letter, Digit, Joint]
    exact ⟨fun hempty => not_begins_nil (hspells.shapes "" hempty).begins,
      fun c => hspells.char_of_mem, fun c hc hmem => houtside c hc (hspells.char_of_mem hmem)⟩

theorem segments_eq_ok_iff_spells_compound :
    Spells ["catalog", "entity-filter2", "\u017fcale"] "catalog.entity-filter2.\u017fcale" ∧
    segments "catalog.entity-filter2.\u017fcale" =
      .ok ["catalog", "entity-filter2", "\u017fcale"] ∧
    '[' ∉ "catalog.entity-filter2.\u017fcale".toList ∧
    segments "catalog.a--b" = .error (.malformedKey "catalog.a--b") ∧
    segments "filter\n" = .error (.malformedKey "filter\n") ∧
    ∀ names, ¬ Spells names "filter\n" := by
  obtain ⟨hok, herror, -, hchars⟩ := segments_eq_ok_iff_spells
  have hsegments : segments "catalog.entity-filter2.\u017fcale" =
      .ok ["catalog", "entity-filter2", "\u017fcale"] :=
    segments_eq_ok_iff.2 (by decide +kernel)
  have hdouble : segments "catalog.a--b" = .error (.malformedKey "catalog.a--b") :=
    segments_eq_error_iff.2 ⟨by decide +kernel, rfl⟩
  have hbreak : segments "filter\n" = .error (.malformedKey "filter\n") :=
    segments_eq_error_iff.2 ⟨by decide +kernel, rfl⟩
  exact ⟨(hok _ _).1 hsegments, hsegments, (hchars _ _ hsegments).2.2 '[' (by simp), hdouble,
    hbreak, ((herror _ _).1 hbreak).2.2⟩

end ConfiguredPredicates.ConfigKey
