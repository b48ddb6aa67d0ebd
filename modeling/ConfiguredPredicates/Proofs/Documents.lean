import ConfiguredPredicates.Predicate.Text
import ConfiguredPredicates.Proofs.Config.LookupOutcome
import ConfiguredPredicates.Proofs.Printed.Values
import ConfiguredPredicates.Proofs.TrailingPosition

/-!
One validation for texts, copies of values and configurations. A text offers a whole value,
or a value with more text behind it, or a fault; what has to have a shape is looked at in
the first two cases, and only then whether the text is at its end.
-/

namespace ConfiguredPredicates

open Json.Text (Blank)

namespace Json

theorem Text.endOfText_eq {rest : List Char} (hrest : Blank rest) : endOfText rest = .ok () := by
  have hskip : skipBlanks rest = [] := List.dropWhile_eq_nil_iff.2 hrest
  simp [endOfText, hskip]

theorem Text.endOfText_of_not_blank {rest : List Char} (hrest : ¬ Blank rest) :
    endOfText rest = .error .malformed := by
  have hskip : skipBlanks rest ≠ [] := fun h => hrest (List.dropWhile_eq_nil_iff.1 h)
  simp [endOfText, hskip]

variable {text : String} {v : Json}

theorem exists_rest_of_ofText (h : ofText text = .ok v) :
    ∃ rest, Text.read text.toList = .ok (v, rest) ∧ Blank rest := by
  obtain ⟨⟨v, rest⟩, hread, h⟩ := Text.bind_eq_ok.1 h
  obtain ⟨_, hend, h⟩ := Text.bind_eq_ok.1 h
  cases h
  refine ⟨rest, hread, ?_⟩
  by_contra hrest
  rw [Text.endOfText_of_not_blank hrest] at hend
  cases hend

theorem ofText_of_blank {rest : List Char} (h : Text.read text.toList = .ok (v, rest))
    (hrest : Blank rest) : ofText text = .ok v := by
  rw [ofText, h]
  simp [Text.endOfText_eq hrest, bind, Except.bind]

theorem ofText_of_not_blank {rest : List Char} (h : Text.read text.toList = .ok (v, rest))
    (hrest : ¬ Blank rest) : ofText text = .error .malformed := by
  rw [ofText, h]
  simp [Text.endOfText_of_not_blank hrest, bind, Except.bind]

theorem ofText_of_fault {f : Text.Fault} (h : Text.read text.toList = .error f) :
    ofText text = .error f := by
  rw [ofText, h]
  rfl

end Json

section
variable {α : Type} {read : Json → Except Violation α} {text : String} {v : Json} {rest : List Char}

theorem readDocument_of_ofText (h : Json.ofText text = .ok v) :
    readDocument read text = (read v).mapError .rejected := by
  obtain ⟨rest, hread, hrest⟩ := Json.exists_rest_of_ofText h
  simp only [readDocument, hread, Json.Text.endOfText_eq hrest, Except.mapError, bind, Except.bind]
  cases read v <;> rfl

theorem readDocument_of_error {x : Violation} (h : Json.Text.read text.toList = .ok (v, rest))
    (hx : read v = .error x) : readDocument read text = .error (.rejected x) := by
  simp [readDocument, h, hx, Except.mapError, bind, Except.bind]

theorem readDocument_of_not_blank {a : α} (h : Json.Text.read text.toList = .ok (v, rest))
    (hrest : ¬ Blank rest) (ha : read v = .ok a) :
    readDocument read text = .error (.fault .malformed) := by
  simp [readDocument, h, ha, Json.Text.endOfText_of_not_blank hrest, Except.mapError, bind,
    Except.bind]

theorem readDocument_of_fault {f : Json.Text.Fault} (h : Json.Text.read text.toList = .error f) :
    readDocument read text = .error (.fault f) := by
  simp [readDocument, h, Except.mapError, bind, Except.bind]

theorem readCopy_of_ordered (hv : v.Ordered) : readCopy read v = (read v).mapError .rejected := by
  rw [readCopy, Json.canonical_of_ordered hv]

end

/-- Reading texts and reading copies of values come down to one way of reading values. -/
structure OneValidation {α : Type} (read : Json → Except Violation α)
    (ofText : String → Except TextError α) (ofCopy : Json → Except TextError α) : Prop where
  whole_ok {text : String} {v : Json} : Json.ofText text = .ok v →
    ∀ a, ofText text = .ok a ↔ read v = .ok a
  whole_error {text : String} {v : Json} : Json.ofText text = .ok v →
    ∀ e, ofText text = .error e ↔ ∃ x, read v = .error x ∧ e = .rejected x
  copy_ok {v : Json} : v.Ordered → ∀ a, ofCopy v = .ok a ↔ read v = .ok a
  copy_error {v : Json} : v.Ordered →
    ∀ e, ofCopy v = .error e ↔ ∃ x, read v = .error x ∧ e = .rejected x
  /-- More text behind a value is noticed once the value has the shape. -/
  behind_ok {text : String} {v : Json} {rest : List Char} {a : α} :
    Json.Text.read text.toList = .ok (v, rest) → ¬ Blank rest → read v = .ok a →
    ofText text = .error (.fault .malformed)
  behind_error {text : String} {v : Json} {rest : List Char} {x : Violation} :
    Json.Text.read text.toList = .ok (v, rest) → ¬ Blank rest → read v = .error x →
    ofText text = .error (.rejected x)
  fault {text : String} {f : Json.Text.Fault} : Json.Text.read text.toList = .error f →
    ofText text = .error (.fault f)

theorem predicate_view_of_ne_null {v : Json} (hv : v ≠ .null) :
    v.view.predicate {} = (Predicate.ofJson v).mapError (.invalid NodePath.rootName) := by
  have hraw : v.view.rawValue {} = .ok (some v) :=
    congrArg Except.ok (Json.present?_eq_some_iff.2 ⟨rfl, hv⟩)
  have hread := predicate?_of_some hraw
  simp only [ConfigView.predicate, hread]
  change ((Except.mapError _ (Predicate.ofJson v)).map some >>= _) = _
  cases Predicate.ofJson v <;> rfl

theorem oneValidation {α : Type} (read : Json → Except Violation α) :
    OneValidation read (readDocument read) (readCopy read) where
  whole_ok h a := by rw [readDocument_of_ofText h, mapError_eq_ok_iff]
  whole_error h e := by rw [readDocument_of_ofText h, mapError_eq_error_iff]
  copy_ok h a := by rw [readCopy_of_ordered h, mapError_eq_ok_iff]
  copy_error h e := by rw [readCopy_of_ordered h, mapError_eq_error_iff]
  behind_ok := readDocument_of_not_blank
  behind_error h _ := readDocument_of_error h
  fault := readDocument_of_fault

/-- Texts, copies, values and configurations are validated in one way, for predicates and for
conditions. What is told of a violation is its message without the position at its end. -/
theorem entryPoints_agree :
    OneValidation Predicate.ofJson Predicate.ofText Predicate.ofCopy ∧
    OneValidation Condition.ofJson Condition.ofText Condition.ofCopy ∧
    Predicate.ofJson = Predicate.ofJsonWithin 64 ∧ Condition.ofJson = Condition.ofJsonWithin 64 ∧
    (∀ v, v ≠ .null →
      (∀ p, v.view.predicate {} = .ok p ↔ Predicate.ofJson v = .ok p) ∧
      ∀ e, v.view.predicate {} = .error e ↔
        ∃ x, Predicate.ofJson v = .error x ∧ e = .invalid "<root>" x) ∧
    (∀ text, (∃ v, Json.ofText text = .ok v) ∨
      (∃ v rest, Json.Text.read text.toList = .ok (v, rest) ∧ ¬ Blank rest ∧
        Json.ofText text = .error .malformed) ∨
      ∃ f, Json.Text.read text.toList = .error f ∧ Json.ofText text = .error f) ∧
    ∀ (x : Violation) (kept : String), x.summary = kept ↔ Json.Text.Keeps x.message kept := by
  refine ⟨oneValidation _, oneValidation _, rfl, rfl, fun v hv => ?_, fun text => ?_,
    fun _ _ => Json.Text.withoutPosition_eq_iff⟩
  · rw [predicate_view_of_ne_null hv]
    exact ⟨fun p => mapError_eq_ok_iff, fun e => mapError_eq_error_iff⟩
  · cases hread : Json.Text.read text.toList with
    | error f => exact .inr (.inr ⟨f, rfl, Json.ofText_of_fault hread⟩)
    | ok result =>
      by_cases hrest : Blank result.2
      · exact .inl ⟨result.1, Json.ofText_of_blank hread hrest⟩
      · exact .inr (.inl ⟨result.1, result.2, rfl, hrest, Json.ofText_of_not_blank hread hrest⟩)

theorem entryPoints_agree_unknownOperator :
    let v := Json.object [("$ at line 1 column 2 at line 1 column 2", .bool true)]
    let x : Violation := ⟨⟨[.key "$ at line 1 column 2 at line 1 column 2"]⟩,
      .unknownOperator "$ at line 1 column 2 at line 1 column 2"⟩
    let kept := "unknown operator '$ at line 1 column 2 at line 1 column 2' at $ at line 1 column 2"
    (Predicate.ofText "\x7b\"$ at line 1 column 2 at line 1 column 2\":true\x7d" =
        .error (.rejected x) ∧
      Predicate.ofCopy v = .error (.rejected x) ∧
      v.view.predicate {} = .error (.invalid "<root>" x) ∧
      x.summary = kept ∧ Json.Text.Keeps x.message kept) ∧
    Predicate.ofText " true " = .ok (.primitive (.bool true)) ∧
    Predicate.ofText "null x" = .error (.rejected ⟨.root, .unexpected .predicate .null⟩) ∧
    Predicate.ofText "true x" = .error (.fault .malformed) ∧
    Condition.ofText "[nul" = .error (.fault .unfinished) := by
  intro v x kept
  obtain ⟨predicates, conditions, -, -, hview, -, hmessage⟩ := entryPoints_agree
  have hordered : v.Ordered :=
    .object (List.pairwise_singleton _ _) (List.forall_mem_singleton.2 (.bool true))
  have htext : v.compact = "\x7b\"$ at line 1 column 2 at line 1 column 2\":true\x7d" := by
    decide +kernel
  have hwhole := htext ▸ Json.ofText_compact hordered (by simp [v]) (by decide)
  have hread : Predicate.ofJson v = .error x := rfl
  have hsummary : x.summary = kept := by decide +kernel
  have hblank : ¬ Blank [' ', 'x'] := fun h => absurd (h 'x' (by simp)) (by decide)
  exact ⟨⟨(predicates.whole_error hwhole _).2 ⟨x, hread, rfl⟩,
      (predicates.copy_error hordered _).2 ⟨x, hread, rfl⟩,
      ((hview v nofun).2 _).2 ⟨x, hread, rfl⟩, hsummary, (hmessage x kept).1 hsummary⟩,
    (predicates.whole_ok rfl _).2 rfl, predicates.behind_error rfl hblank rfl,
    predicates.behind_ok rfl hblank rfl, conditions.fault rfl⟩

end ConfiguredPredicates
