import ConfiguredPredicates.Proofs.Config.Agreement
import ConfiguredPredicates.Proofs.Config.LookupOutcome

/-!
A predicate as the root of a configuration. As a layer it is a table of settings, and a
property key that is a path of several steps is taken apart there. Main statement: the
predicate comes back from the root exactly when each of its keys is a single step.
-/

namespace ConfiguredPredicates

open OfJson

theorem OfJson.exists_members_of_accepts {readPredicate : Json → Except Violation Predicate}
    {readCondition : Json → Except Violation Condition} {members : List (String × Json)}
    {p : Predicate} (h : AcceptsPredicate readPredicate readCondition (.object members) p) :
    ∃ written, p.toJson = .object written ∧
      ∀ member ∈ written, member.1 ∈ Entries.keys members := by
  generalize hv : Json.object members = v at h
  cases h with
  | primitive p => cases p <;> cases hv
  | @operands op join values predicates hjoin _ =>
    cases hv
    cases hjoin <;> exact ⟨_, rfl, by simp [Entries.keys]⟩
  | not _ =>
    cases hv
    exact ⟨_, rfl, by simp [Entries.keys]⟩
  | @expression _ conditions _ hall =>
    cases hv
    refine ⟨_, rfl, fun member hmember => ?_⟩
    obtain ⟨property, hproperty, rfl⟩ := Predicate.exists_property_of_mem hmember
    rw [← keys_of_forall₂ hall]
    exact List.mem_map_of_mem (Entries.mem_of_mem_ofList hproperty)

theorem exists_members_of_rootValue {layer : List (String × Json)} {raw : Json}
    (hraw : LayeredConfig.rootValue ⟨(Setting.table []).addLayer layer⟩ = .ok (some raw)) :
    ∃ members, raw = .object members ∧ ∀ key ∈ Entries.keys members, IsSingleStep key := by
  have hempty : ∀ entry ∈ ([] : List (String × Setting)), IsSingleStep entry.1 := by simp
  obtain ⟨settings, hroot, hsettings⟩ := Setting.exists_addLayer layer hempty
  simp only [LayeredConfig.rootValue, hroot, Setting.toJson] at hraw
  cases hread : Setting.membersToJson settings with
  | error steps => simp [hread, Except.mapError, bind, Except.bind] at hraw
  | ok members =>
    simp only [hread, Functor.map, Except.map, Except.mapError, bind, Except.bind,
      Except.ok.injEq] at hraw
    cases hraw
    refine ⟨members, rfl, ?_⟩
    rw [Setting.keys_of_membersToJson hread, Entries.keys, List.forall_mem_map]
    exact hsettings

theorem predicate_root_eq_ok_iff {config : ConfigView} {p : Predicate} :
    config.predicate {} = .ok p ↔
      ∃ raw, config.root = .ok (some raw) ∧ Predicate.ofJson raw = .ok p := by
  have hroot : config.rawValue {} = config.root := rfl
  rw [predicate_eq_ok_iff]
  rcases hraw : config.root with e | _ | raw
  · simp [predicate?_of_error (hroot.trans hraw)]
  · simp [predicate?_of_none (hroot.trans hraw)]
  · rw [predicate?_of_some (hroot.trans hraw)]
    change Except.map some (Except.mapError _ (Predicate.ofJson raw)) = _ ↔ _
    cases hread : Predicate.ofJson raw <;> simp [hread, Except.mapError, Except.map]

theorem isSingleStep_of_predicate_root {members : List (String × Json)} {p : Predicate}
    (hordered : (Json.object members).Ordered) (hp : Predicate.ofJson (.object members) = .ok p)
    (hroot : (LayeredConfig.view ⟨(Setting.table []).addLayer members⟩).predicate {} = .ok p) :
    ∀ member ∈ members, IsSingleStep member.1 := by
  obtain ⟨raw, hraw, hread⟩ := predicate_root_eq_ok_iff.1 hroot
  obtain ⟨settings, rfl, hsettings⟩ := exists_members_of_rootValue hraw
  obtain ⟨written, hwritten, hkeys⟩ :=
    exists_members_of_accepts (((predicateLayer_eq_iff _).1 p).1 hread)
  have hsame : p.toJson = .object members :=
    (toJson_of_within standardDepth (standardDepth + 1)).1 _ p hordered hp
  cases hwritten.symm.trans hsame
  exact fun member hmember => hsettings _ (hkeys member hmember)

/-- The predicate that a text holds is read from a tree of the text as itself, and from the
root of the configuration of the text exactly when no key of it is a path of several steps. -/
theorem predicate_root_eq_ok_iff_singleStep {text : String} {members : List (String × Json)}
    {p : Predicate} (htext : Json.ofText text = .ok (.object members))
    (hp : Predicate.ofJson (.object members) = .ok p) :
    ∃ config, LayeredConfig.empty.addText? text = some config ∧
      (Json.object members).view.predicate {} = .ok p ∧
      (config.view.predicate {} = .ok p ↔ ∀ member ∈ members, IsSingleStep member.1) := by
  have hordered := Json.ordered_of_ofText htext
  refine ⟨_, addText?_of_object htext, predicate_root_eq_ok_iff.2 ⟨_, rfl, hp⟩,
    isSingleStep_of_predicate_root hordered hp, fun hkeys => ?_⟩
  have hroot := view_root_eq (Setting.addLayer_eq_ofJson hkeys hordered)
  exact predicate_root_eq_ok_iff.2 ⟨.object members, hroot, hp⟩

theorem predicate_root_eq_ok_iff_singleStep_several :
    let text := "\x7b\"full name\":\"api\",\"kind\":\x7b\"$exists\":true\x7d,\"on-call\":true\x7d"
    let members : List (String × Json) := [("full name", .string "api"),
      ("kind", .object [("$exists", .bool true)]), ("on-call", .bool true)]
    let p : Predicate := .expression [("full name", .primitive (.string "api")),
      ("kind", .present true), ("on-call", .primitive (.bool true))]
    Json.ofText text = .ok (.object members) ∧ Predicate.ofJson (.object members) = .ok p ∧
      ∃ config, LayeredConfig.empty.addText? text = some config ∧
        config.view.predicate {} = .ok p := by
  intro text members p
  have hordered : (Json.object members).Ordered := Json.ordered_canonical (.object members)
  have htext : Json.ofText text = .ok (.object members) := by
    have hprinted : text = (Json.object members).compact := by decide +kernel
    rw [hprinted]
    exact Json.ofText_compact hordered (by simp [members]) (by decide)
  have hp : Predicate.ofJson (.object members) = .ok p := rfl
  -- A blank is in no path, so this key is none; the two others are one identifier each.
  have hblank : pathExpression? "full name" = none := by decide +kernel
  have hkind : pathExpression? "kind" = some [.key "kind"] := by decide +kernel
  have hhyphen : pathExpression? "on-call" = some [.key "on-call"] := by decide +kernel
  obtain ⟨config, hconfig, -, hroot⟩ := predicate_root_eq_ok_iff_singleStep htext hp
  refine ⟨htext, hp, config, hconfig, hroot.2 ?_⟩
  simp [members, IsSingleStep, hblank, hkind, hhyphen]

theorem predicate_root_of_point :
    let text := "\x7b\"spec.type\":\"service\"\x7d"
    let members : List (String × Json) := [("spec.type", .string "service")]
    let p : Predicate := .expression [("spec.type", .primitive (.string "service"))]
    Json.ofText text = .ok (.object members) ∧ Predicate.ofJson (.object members) = .ok p ∧
      (Json.object members).view.predicate {} = .ok p ∧
      ∃ config, LayeredConfig.empty.addText? text = some config ∧
        config.view.predicate {} = .error (.invalid "<root>" ⟨⟨[.key "spec"]⟩, .plainObject⟩) := by
  intro text members p
  have htext : Json.ofText text = .ok (.object members) := by
    have hprinted : text = (Json.object members).compact := by decide +kernel
    rw [hprinted]
    exact Json.ofText_compact (Json.ordered_canonical (.object members)) (by simp [members])
      (by decide)
  have hpath : pathExpression? "spec.type" = some [.key "spec", .key "type"] := by
    decide +kernel
  have hroot : (Setting.table []).addLayer members =
      .ofJson (.object [("spec", .object [("type", .string "service")])]) := by
    simp only [members, Setting.addLayer, List.foldl_cons, List.foldl_nil, Setting.topLevelPath,
      hpath, Option.getD_some]
    rfl
  refine ⟨htext, rfl, rfl, _, addText?_of_object htext, ?_⟩
  rw [hroot]
  rfl

end ConfiguredPredicates
