import ConfiguredPredicates.Config.Lookup
import ConfiguredPredicates.Proofs.Config.SingleLayer
import ConfiguredPredicates.Proofs.Printed.Values

/-!
A tree and the configuration that has it as its only layer. When the top-level keys
are single steps the two have the same value, and the same value at every key but in two
cases. A key that runs into a node without members is a fault of the tree and finds
nothing in the configuration; a key with a foreign letter is a fault of the
configuration. Outside these two cases predicates are read from both alike.
-/

namespace ConfiguredPredicates

/-- The names of an ASCII key go on at a node that is neither an object nor null. -/
def Json.RunsInto (tree : Json) (key : String) : Prop :=
  ∃ names front kind, ConfigKey.segments? key = some names ∧ (∀ c ∈ key.toList, c.toNat < 128) ∧
    tree.Blocked names front kind

/-- A well-formed key with one of the letters that path expressions do not have. -/
def ConfigKey.IsForeign (key : String) : Prop :=
  (∃ names, ConfigKey.segments? key = some names) ∧
    ('\u017f' ∈ key.toList ∨ '\u212a' ∈ key.toList)

namespace Json

variable {names : List String} {tree : Json}

theorem walk_of_along? {node : Json} (h : tree.along? names = some node) :
    walk [] names tree = .ok node.present? := by
  cases hpresent : node.present? with
  | none =>
    obtain rfl := present?_eq_none_iff.1 hpresent
    exact walk_eq_ok_none_iff.2 (.inr ⟨names, [], (List.append_nil names).symm, h⟩)
  | some value =>
    obtain ⟨rfl, hnull⟩ := present?_eq_some_iff.1 hpresent
    exact walk_eq_ok_some_iff.2 ⟨h, hnull⟩

theorem along?_eq_none_of_blocked {front : List String} {kind : Kind}
    (h : tree.Blocked names front kind) : tree.along? names = none := by
  cases halong : tree.along? names with
  | none => rfl
  | some node =>
    have hwalk : walk [] names tree = .error _ := walk_eq_error_iff.2 ⟨front, kind, h, rfl⟩
    rw [walk_of_along? halong] at hwalk
    cases hwalk

theorem walk_of_not_blocked (h : ∀ front kind, ¬ tree.Blocked names front kind) :
    walk [] names tree = .ok ((tree.along? names).bind present?) := by
  cases halong : tree.along? names with
  | some node => exact walk_of_along? halong
  | none =>
    rcases hwalk : walk [] names tree with e | _ | node
    · obtain ⟨front, kind, hblocked, -⟩ := walk_eq_error_iff.1 hwalk
      exact absurd hblocked (h front kind)
    · rfl
    · rw [(walk_eq_ok_some_iff.1 hwalk).1] at halong
      cases halong

end Json

theorem isForeignLetter_eq_false_of_lt {c : Char} (h : c.toNat < 128) :
    isForeignLetter c = false := by
  cases hc : isForeignLetter c with
  | false => rfl
  | true =>
    simp only [isForeignLetter, Bool.or_eq_true, decide_eq_true_eq] at hc
    rcases hc with rfl | rfl <;> exact absurd h (by decide)

section SameRoot

variable {members : List (String × Json)} {config : LayeredConfig} {key : String}

theorem lookupKey_of_names (hroot : config.root = .ofJson (.object members))
    {names : List String} (hnames : ConfigKey.segments? key = some names)
    (hforeign : ∀ c ∈ key.toList, isForeignLetter c = false) :
    config.lookupKey key =
      .ok (((Json.object members).along? names).bind Json.present?) := by
  have hpath := pathExpression?_of_segments? hnames hforeign
  simp only [LayeredConfig.lookupKey, ConfigKey.segments, hnames, hpath, hroot,
    Setting.find?_ofJson, bind, Except.bind]
  cases (Json.object members).along? names with
  | none => rfl
  | some node =>
    rw [Option.map_some]
    simp [Setting.toJson_ofJson, Except.mapError]

theorem lookupKey_of_foreign (config : LayeredConfig) (h : ConfigKey.IsForeign key) :
    config.lookupKey key = .error (.foreignLetter key) := by
  obtain ⟨⟨names, hnames⟩, hletter⟩ := h
  have hpath : pathExpression? key = none := by
    rcases hletter with hmem | hmem
    · exact pathExpression?_eq_none hnames hmem (by decide)
    · exact pathExpression?_eq_none hnames hmem (by decide)
  simp [LayeredConfig.lookupKey, ConfigKey.segments, hnames, hpath, bind, Except.bind]

theorem isForeign_or_ascii {names : List String} (hnames : ConfigKey.segments? key = some names) :
    ConfigKey.IsForeign key ∨
      (∀ c ∈ key.toList, c.toNat < 128) ∧ ∀ c ∈ key.toList, isForeignLetter c = false := by
  by_cases hletter : '\u017f' ∈ key.toList ∨ '\u212a' ∈ key.toList
  · exact .inl ⟨⟨names, hnames⟩, hletter⟩
  · have hforeign : ∀ c ∈ key.toList, isForeignLetter c = false := by
      intro c hc
      rw [not_or] at hletter
      have hne : c ≠ '\u017f' ∧ c ≠ '\u212a' :=
        ⟨fun heq => hletter.1 (heq ▸ hc), fun heq => hletter.2 (heq ▸ hc)⟩
      simp [isForeignLetter, hne]
    refine .inr ⟨fun c hc => ?_, hforeign⟩
    rcases ConfigKey.point_or_isSegmentChar hnames hc with rfl | hchar
    · decide
    · exact PathExpression.lt_of_isIdentifierChar
        (isIdentifierChar_of_isSegmentChar hchar (hforeign c hc))

theorem view_root_eq (hroot : config.root = .ofJson (.object members)) :
    config.view.root = (Json.object members).view.root := by
  simp [LayeredConfig.view, LayeredConfig.rootValue, hroot, Setting.toJson_ofJson, Json.view,
    Except.mapError, bind, Except.bind]

theorem view_lookup_of_runsInto (hroot : config.root = .ofJson (.object members))
    (h : (Json.object members).RunsInto key) :
    (∃ front kind, (Json.object members).view.lookup key = .error (.wrongType front kind)) ∧
      config.view.lookup key = .ok none := by
  obtain ⟨names, front, kind, hnames, hascii, hblocked⟩ := h
  constructor
  · have hwalk : Json.walk [] names (.object members) = .error (.wrongType ([] ++ front) kind) :=
      Json.walk_eq_error_iff.2 ⟨front, kind, hblocked, rfl⟩
    refine ⟨front, kind, ?_⟩
    simpa [Json.view, Json.lookupKey, ConfigKey.segments, hnames, bind, Except.bind] using hwalk
  · have hfind := lookupKey_of_names hroot hnames
      fun c hc => isForeignLetter_eq_false_of_lt (hascii c hc)
    rw [Json.along?_eq_none_of_blocked hblocked] at hfind
    exact hfind

theorem view_lookup_eq (hroot : config.root = .ofJson (.object members))
    (hruns : ¬ (Json.object members).RunsInto key) (hforeign : ¬ ConfigKey.IsForeign key) :
    config.view.lookup key = (Json.object members).view.lookup key := by
  cases hnames : ConfigKey.segments? key with
  | none =>
    simp [LayeredConfig.view, LayeredConfig.lookupKey, Json.view, Json.lookupKey,
      ConfigKey.segments, hnames, bind, Except.bind]
  | some names =>
    obtain ⟨hascii, hplain⟩ := (isForeign_or_ascii hnames).resolve_left hforeign
    have hwalk := Json.walk_of_not_blocked fun front kind hblocked =>
      hruns ⟨names, front, kind, hnames, hascii, hblocked⟩
    simp only [LayeredConfig.view, lookupKey_of_names hroot hnames hplain, Json.view,
      Json.lookupKey, ConfigKey.segments, hnames, bind, Except.bind, hwalk]

end SameRoot

theorem addText?_of_object {text : String} {members : List (String × Json)}
    (htext : Json.ofText text = .ok (.object members)) :
    LayeredConfig.empty.addText? text = some ⟨(Setting.table []).addLayer members⟩ := by
  simp [LayeredConfig.addText?, htext, LayeredConfig.empty]

theorem predicate_congr {config other : ConfigView} {what : Lookup}
    (h : config.rawValue what = other.rawValue what) :
    config.predicate? what = other.predicate? what ∧
      config.predicate what = other.predicate what := by
  simp only [ConfigView.predicate, ConfigView.predicate?, h, and_self]

/-- The configuration of a single layer agrees with the layer as a tree, except for keys
that run into a node without members and keys with a foreign letter. -/
theorem view_eq_view_of_singleStep {text : String} {members : List (String × Json)}
    (htext : Json.ofText text = .ok (.object members))
    (hkeys : ∀ member ∈ members, ∀ path, pathExpression? member.1 = some path →
      path.length ≤ 1) :
    ∃ config, LayeredConfig.empty.addText? text = some config ∧
      config.view.root = (Json.object members).view.root ∧
      (∀ key, (Json.object members).RunsInto key →
        (∃ front kind, (Json.object members).view.lookup key = .error (.wrongType front kind)) ∧
          config.view.lookup key = .ok none) ∧
      (∀ key, ConfigKey.IsForeign key →
        config.view.lookup key = .error (.foreignLetter key)) ∧
      (∀ key, ¬ (Json.object members).RunsInto key → ¬ ConfigKey.IsForeign key →
        config.view.lookup key = (Json.object members).view.lookup key) ∧
      ∀ what : Lookup, (∀ key, what.key = some key →
          ¬ (Json.object members).RunsInto key ∧ ¬ ConfigKey.IsForeign key) →
        config.view.predicate? what = (Json.object members).view.predicate? what ∧
          config.view.predicate what = (Json.object members).view.predicate what := by
  have hroot := Setting.addLayer_eq_ofJson hkeys (Json.ordered_of_ofText htext)
  refine ⟨_, addText?_of_object htext, view_root_eq hroot,
    fun key => view_lookup_of_runsInto hroot, fun key => lookupKey_of_foreign _,
    fun key => view_lookup_eq hroot, fun what hwhat => predicate_congr ?_⟩
  unfold ConfigView.rawValue
  cases hkey : what.key with
  | none => exact view_root_eq hroot
  | some key =>
    obtain ⟨hruns, hforeign⟩ := hwhat key hkey
    exact view_lookup_eq hroot hruns hforeign

theorem view_eq_view_of_singleStep_catalog :
    let text := "\x7b\"catalog\":\x7b\"filter\":\x7b\"kind\":\"api\"\x7d\x7d,\"flag\":true\x7d"
    let members : List (String × Json) :=
      [("catalog", .object [("filter", .object [("kind", .string "api")])]), ("flag", .bool true)]
    let tree : Json := .object members
    Json.ofText text = .ok tree ∧
      (∀ member ∈ members, ∀ path, pathExpression? member.1 = some path → path.length ≤ 1) ∧
      ∃ config, LayeredConfig.empty.addText? text = some config ∧
        (∃ front kind, tree.view.lookup "flag.kind" = .error (.wrongType front kind)) ∧
        config.view.lookup "flag.kind" = .ok none ∧
        config.view.lookup "\u017f" = .error (.foreignLetter "\u017f") ∧
        config.view.predicate ⟨some "catalog.filter", 64⟩ =
          tree.view.predicate ⟨some "catalog.filter", 64⟩ := by
  intro text members tree
  have htext : Json.ofText text = .ok tree := by
    have hprinted : text = tree.compact := by decide +kernel
    rw [hprinted]
    exact Json.ofText_compact (Json.ordered_canonical tree) (by simp [tree, members]) (by decide)
  have hkeys : ∀ member ∈ members, ∀ path, pathExpression? member.1 = some path →
      path.length ≤ 1 := by
    have hcatalog : pathExpression? "catalog" = some [.key "catalog"] := by decide +kernel
    have hflag : pathExpression? "flag" = some [.key "flag"] := by decide +kernel
    simp [members, hcatalog, hflag]
  obtain ⟨config, hconfig, -, hruns, hforeign, -, hpredicate⟩ :=
    view_eq_view_of_singleStep htext hkeys
  have hfilterNames : ConfigKey.segments? "catalog.filter" = some ["catalog", "filter"] := by
    decide +kernel
  have hkindNames : ConfigKey.segments? "flag.kind" = some ["flag", "kind"] := by decide +kernel
  have hforeignNames : ConfigKey.segments? "\u017f" = some ["\u017f"] := by decide +kernel
  have hfilter : ¬ tree.RunsInto "catalog.filter" := by
    rintro ⟨names, front, kind, hnames, -, hblocked⟩
    cases hfilterNames.symm.trans hnames
    have hnone := Json.along?_eq_none_of_blocked hblocked
    cases hnone
  have hkind : tree.RunsInto "flag.kind" :=
    ⟨_, ["flag"], .boolean, hkindNames, by simp,
      ⟨"kind", [], rfl⟩, .bool true, rfl, rfl, by simp, by simp⟩
  have hplain : ¬ ConfigKey.IsForeign "catalog.filter" := by
    rintro ⟨-, hletter⟩
    exact absurd hletter (by decide)
  refine ⟨htext, hkeys, config, hconfig, (hruns _ hkind).1, (hruns _ hkind).2,
    hforeign _ ⟨⟨_, hforeignNames⟩, by decide⟩, (hpredicate _ ?_).2⟩
  rintro key ⟨⟩
  exact ⟨hfilter, hplain⟩

end ConfiguredPredicates
