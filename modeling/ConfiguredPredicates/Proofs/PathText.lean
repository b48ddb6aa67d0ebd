import ConfiguredPredicates.Predicate.Violation
import ConfiguredPredicates.Proofs.QuotedText

/-!
Paths told by their texts. A key that stands by itself ends where the next step begins, and
what stands in brackets ends by itself, so the steps of a path are found again one after
the other. Main statement: different paths have different texts, but for the root and the
one key that is written as the name of the root.
-/

namespace ConfiguredPredicates

namespace NodePath

inductive Written (first : Bool) : Segment → List Char → Prop
  | index (position : Nat) :
      Written first (.index position) ('[' :: Decimal.natChars position ++ [']'])
  | quoted (name : String) :
      Written first (.key name) ('[' :: Text.quoted name.toList ++ [']'])
  | plain {name : String} : needsQuotes name.toList = false →
      Written first (.key name) (if first then name.toList else '.' :: name.toList)

theorem written_segmentChars (first : Bool) (step : Segment) :
    Written first step (segmentChars first step) := by
  cases step with
  | index position => exact .index position
  | key name =>
    cases hquotes : needsQuotes name.toList with
    | true => simpa [segmentChars, hquotes] using @Written.quoted first name
    | false => simpa [segmentChars, hquotes] using @Written.plain first name hquotes

/-- Nothing that a key standing by itself could go on with. -/
def Continues (rest : List Char) : Prop := ∀ c ∈ rest.head?, c = '.' ∨ c = '['

theorem needsQuotes_eq_false_iff {name : List Char} :
    needsQuotes name = false ↔
      name ≠ [] ∧ ∀ c ∈ name, c ≠ '.' ∧ c ≠ '[' ∧ c ≠ ']' ∧ c ≠ '"' := by
  simp [needsQuotes, and_assoc]

theorem plain_append_ne {first : Bool} {name : List Char} (h : needsQuotes name = false)
    (x y : List Char) : (if first then name else '.' :: name) ++ x ≠ '[' :: y := by
  obtain ⟨hne, hplain⟩ := needsQuotes_eq_false_iff.1 h
  obtain ⟨c, cs, rfl⟩ := List.exists_cons_of_ne_nil hne
  intro heq
  cases first with
  | true => exact (hplain c List.mem_cons_self).2.1 (List.cons.inj heq).1
  | false => exact absurd (List.cons.inj heq).1 (by decide)

theorem digits_append_ne_quoted (n : Nat) (s x y : List Char) :
    Decimal.natChars n ++ x ≠ Text.quoted s ++ y := by
  obtain ⟨d, ds, hds⟩ : ∃ d ds, Decimal.natChars n = d :: ds :=
    List.exists_cons_of_ne_nil Nat.toDigits_ne_nil
  have hdigit : d.isDigit = true :=
    Nat.isDigit_of_mem_toDigits (by decide) (by decide) (hds ▸ List.mem_cons_self)
  intro heq
  rw [hds] at heq
  obtain rfl : d = '"' := (List.cons.inj heq).1
  exact absurd hdigit (by decide)

theorem plain_append_inj {first : Bool} {name other x y : List Char}
    (hname : needsQuotes name = false) (hother : needsQuotes other = false)
    (hx : Continues x) (hy : Continues y)
    (h : (if first then name else '.' :: name) ++ x =
      (if first then other else '.' :: other) ++ y) :
    name = other ∧ x = y := by
  have hkeys : name ++ x = other ++ y := by
    cases first with
    | true => exact h
    | false => exact List.tail_eq_of_cons_eq h
  have hinside : ∀ cs, needsQuotes cs = false → ∀ c ∈ cs, (c != '.' && c != '[') = true := by
    intro cs hcs c hc
    obtain ⟨hpoint, hbracket, -⟩ := (needsQuotes_eq_false_iff.1 hcs).2 c hc
    simp [hpoint, hbracket]
  have hends : ∀ rest, Continues rest → ∀ c ∈ rest.head?, (c != '.' && c != '[') = false := by
    intro rest hrest c hc
    rcases hrest c hc with rfl | rfl <;> rfl
  exact Text.append_inj_of_span (hinside name hname) (hinside other hother) (hends x hx)
    (hends y hy) hkeys

/-- A step is found again at the beginning of a text that goes on with steps or ends. -/
theorem segmentChars_append_inj {first : Bool} {s t : Segment} {x y : List Char}
    (hx : Continues x) (hy : Continues y)
    (h : segmentChars first s ++ x = segmentChars first t ++ y) : s = t ∧ x = y := by
  have hs := written_segmentChars first s
  have ht := written_segmentChars first t
  generalize segmentChars first s = u at h hs
  generalize segmentChars first t = v at h ht
  -- The first character tells brackets from a bare key, the second tells an index from quotes.
  cases hs with
  | index m =>
    cases ht with
    | index n =>
      have hdigits : Decimal.natChars m ++ ']' :: x = Decimal.natChars n ++ ']' :: y := by
        simpa using h
      obtain ⟨rfl, hrest⟩ := Text.toDigits_append_inj (by decide) (by decide) (by decide) hdigits
      exact ⟨rfl, hrest⟩
    | quoted name =>
      refine absurd ?_ (digits_append_ne_quoted m name.toList (']' :: x) (']' :: y))
      simpa using h
    | plain hname => exact absurd h.symm (plain_append_ne hname y _)
  | quoted name =>
    cases ht with
    | index n =>
      refine absurd ?_ (digits_append_ne_quoted n name.toList (']' :: y) (']' :: x))
      simpa using h.symm
    | quoted other =>
      have htexts : Text.quoted name.toList ++ ']' :: x = Text.quoted other.toList ++ ']' :: y := by
        simpa using h
      obtain ⟨hname, hrest⟩ := Text.quoted_append_inj htexts
      exact ⟨congrArg _ (String.toList_inj.1 hname), List.tail_eq_of_cons_eq hrest⟩
    | plain hname => exact absurd h.symm (plain_append_ne hname y _)
  | plain hname =>
    cases ht with
    | index n => exact absurd h (plain_append_ne hname x _)
    | quoted other => exact absurd h (plain_append_ne hname x _)
    | plain hother =>
      obtain ⟨hkeys, hrest⟩ := plain_append_inj hname hother hx hy h
      exact ⟨congrArg _ (String.toList_inj.1 hkeys), hrest⟩

theorem continues_segmentChars (step : Segment) (rest : List Char) :
    Continues (segmentChars false step ++ rest) := by
  have hwritten := written_segmentChars false step
  generalize segmentChars false step = u at hwritten
  cases hwritten <;> simp [Continues]

theorem continues_flatMap (steps : List Segment) :
    Continues (steps.flatMap (segmentChars false)) := by
  cases steps with
  | nil => simp [Continues]
  | cons step rest => exact continues_segmentChars step _

theorem segmentChars_ne_nil (first : Bool) (step : Segment) : segmentChars first step ≠ [] := by
  have hwritten := written_segmentChars first step
  generalize segmentChars first step = u at hwritten
  cases hwritten with
  | index | quoted => simp
  | plain hname => cases first <;> simp [(needsQuotes_eq_false_iff.1 hname).1]

theorem flatMap_segmentChars_inj {steps others : List Segment}
    (h : steps.flatMap (segmentChars false) = others.flatMap (segmentChars false)) :
    steps = others := by
  induction steps generalizing others with
  | nil =>
    cases others with
    | nil => rfl
    | cons t others => simp [segmentChars_ne_nil] at h
  | cons s steps ih =>
    cases others with
    | nil => simp [segmentChars_ne_nil] at h
    | cons t others =>
      obtain ⟨rfl, hrest⟩ :=
        segmentChars_append_inj (continues_flatMap steps) (continues_flatMap others) h
      rw [ih hrest]

theorem renderChars_cons_iff {s t : Segment} {steps others : List Segment} :
    renderChars (s :: steps) = renderChars (t :: others) ↔ s = t ∧ steps = others := by
  constructor
  · intro h
    obtain ⟨hfirst, hrest⟩ :=
      segmentChars_append_inj (continues_flatMap steps) (continues_flatMap others) h
    exact ⟨hfirst, flatMap_segmentChars_inj hrest⟩
  · rintro ⟨rfl, rfl⟩
    rfl

theorem renderChars_rootName : renderChars [.key rootName] = renderChars [] := by decide +kernel

theorem renderChars_cons_eq_root_iff {s : Segment} {steps : List Segment} :
    renderChars (s :: steps) = renderChars [] ↔ s = .key rootName ∧ steps = [] := by
  rw [← renderChars_rootName, renderChars_cons_iff]

theorem renderChars_eq_renderChars_iff {steps others : List Segment} :
    renderChars steps = renderChars others ↔
      steps = others ∨ (steps = [] ∧ others = [.key rootName]) ∨
        (steps = [.key rootName] ∧ others = []) := by
  cases steps with
  | nil =>
    cases others with
    | nil => simp
    | cons t others =>
      rw [eq_comm, renderChars_cons_eq_root_iff]
      simp
  | cons s steps =>
    cases others with
    | nil =>
      rw [renderChars_cons_eq_root_iff]
      simp
    | cons t others =>
      rw [renderChars_cons_iff]
      simp

/-- Two paths have one text only if they are the same path, or one of them is the root and the
other the single key that looks like its name. -/
theorem render_eq_render_iff :
    root.render = "<root>" ∧ (root.atKey "<root>").render = "<root>" ∧
      ∀ a b : NodePath, a.render = b.render ↔
        a = b ∨ (a = root ∧ b = root.atKey "<root>") ∨ (a = root.atKey "<root>" ∧ b = root) := by
  refine ⟨by decide +kernel, by decide +kernel, fun a b => ?_⟩
  obtain ⟨steps⟩ := a
  obtain ⟨others⟩ := b
  rw [render, render, String.ofList_inj, renderChars_eq_renderChars_iff]
  simp [root, atKey, rootName]

example : (root.atKey "spec.type").render ≠ ((root.atKey "spec").atKey "type").render := by
  decide +kernel

end NodePath

end ConfiguredPredicates
