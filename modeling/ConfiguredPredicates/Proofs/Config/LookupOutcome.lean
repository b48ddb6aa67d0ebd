import ConfiguredPredicates.Config.Lookup
import ConfiguredPredicates.Proofs.Config.Keys
import ConfiguredPredicates.Proofs.Config.Walk
import ConfiguredPredicates.Proofs.FirstViolation
import ConfiguredPredicates.Proofs.RoundTrip

/-!
What looking up a predicate in a tree comes to. Each possible result has its condition
on the tree, the key and the limit, said by the nodes that the key leads to. Main
statement: a lookup has a result exactly when its condition holds; a refused value is
found again in the whole tree by the key and then the path of the violation.
-/

namespace ConfiguredPredicates

open OfJson

def Lookup.names? (what : Lookup) : Option (List String) :=
  match what.key with
  | none => some []
  | some key => ConfigKey.segments? key

/-- What a lookup in a tree comes to, each result with its condition. -/
inductive Lookup.Outcome (what : Lookup) (tree : Json) :
    Except ReadError (Option Predicate) → Prop
  | malformedKey {key : String} : what.key = some key → ConfigKey.segments? key = none →
      Outcome what tree (.error (.config (.malformedKey key)))
  | wrongType {names front : List String} {kind : Json.Kind} : what.names? = some names →
      tree.Blocked names front kind → Outcome what tree (.error (.config (.wrongType front kind)))
  | absent {names : List String} : what.names? = some names → tree.Vanishes names →
      Outcome what tree (.ok none)
  | invalid {names : List String} {node : Json} {x : Violation} : what.names? = some names →
      tree.Arrives names node → Predicate.ofJsonWithin what.limit node = .error x →
      Outcome what tree (.error (.invalid what.location x))
  | found {names : List String} {node : Json} {p : Predicate} : what.names? = some names →
      tree.Arrives names node → Predicate.ofJsonWithin what.limit node = .ok p →
      Outcome what tree (.ok (some p))

theorem rawValue_view_of_names {what : Lookup} {names : List String}
    (hnames : what.names? = some names) (tree : Json) :
    tree.view.rawValue what = Json.walk [] names tree := by
  unfold Lookup.names? at hnames
  unfold ConfigView.rawValue
  cases hkey : what.key with
  | none =>
    rw [hkey] at hnames
    cases hnames
    rfl
  | some key =>
    rw [hkey] at hnames
    simp only at hnames
    simp [Json.view, Json.lookupKey, ConfigKey.segments, hnames, bind, Except.bind]

theorem rawValue_view_of_malformed {what : Lookup} {key : String} (hkey : what.key = some key)
    (hmalformed : ConfigKey.segments? key = none) (tree : Json) :
    tree.view.rawValue what = .error (.malformedKey key) := by
  simp [ConfigView.rawValue, hkey, Json.view, Json.lookupKey, ConfigKey.segments, hmalformed,
    bind, Except.bind]

section
variable {config : ConfigView} {what : Lookup}

theorem predicate?_of_error {e : ConfigError} (h : config.rawValue what = .error e) :
    config.predicate? what = .error (.config e) := by
  simp [ConfigView.predicate?, h, Except.mapError, bind, Except.bind]

theorem predicate?_of_none (h : config.rawValue what = .ok none) :
    config.predicate? what = .ok none := by
  simp [ConfigView.predicate?, h, Except.mapError, bind, Except.bind]

theorem predicate?_of_some {node : Json} (h : config.rawValue what = .ok (some node)) :
    config.predicate? what =
      ((Predicate.ofJsonWithin what.limit node).mapError (.invalid what.location)).map some := by
  simp only [ConfigView.predicate?, h, Except.mapError, bind, Except.bind]
  cases Predicate.ofJsonWithin what.limit node <;> rfl

theorem predicate_eq_ok_iff {p : Predicate} :
    config.predicate what = .ok p ↔ config.predicate? what = .ok (some p) := by
  unfold ConfigView.predicate
  rcases config.predicate? what with e | _ | q <;> simp [bind, Except.bind]

theorem predicate_eq_error_iff {e : ReadError} :
    config.predicate what = .error e ↔
      config.predicate? what = .error e ∨
        config.predicate? what = .ok none ∧ e = .missing what.location := by
  unfold ConfigView.predicate
  rcases config.predicate? what with e' | _ | q <;> simp [bind, Except.bind, eq_comm]

end

theorem Lookup.outcome_of_predicate? (what : Lookup) (tree : Json) :
    what.Outcome tree (tree.view.predicate? what) := by
  cases hnames : what.names? with
  | none =>
    obtain ⟨key, hkey, hmalformed⟩ :
        ∃ key, what.key = some key ∧ ConfigKey.segments? key = none := by
      unfold Lookup.names? at hnames
      split at hnames
      · cases hnames
      · next key hkey => exact ⟨key, hkey, hnames⟩
    rw [predicate?_of_error (rawValue_view_of_malformed hkey hmalformed tree)]
    exact .malformedKey hkey hmalformed
  | some names =>
    have hraw := rawValue_view_of_names hnames tree
    rcases hwalk : Json.walk [] names tree with e | _ | node
    · obtain ⟨front, kind, hblocked, rfl⟩ := Json.walk_eq_error_iff.1 hwalk
      rw [predicate?_of_error (hraw.trans hwalk)]
      exact .wrongType hnames hblocked
    · rw [predicate?_of_none (hraw.trans hwalk)]
      exact .absent hnames (Json.walk_eq_ok_none_iff.1 hwalk)
    · have harrives := Json.walk_eq_ok_some_iff.1 hwalk
      rw [predicate?_of_some (hraw.trans hwalk)]
      cases hread : Predicate.ofJsonWithin what.limit node with
      | error x => exact .invalid hnames harrives hread
      | ok p => exact .found hnames harrives hread

theorem Lookup.Outcome.predicate?_eq {what : Lookup} {tree : Json}
    {result : Except ReadError (Option Predicate)} (h : what.Outcome tree result) :
    tree.view.predicate? what = result := by
  cases h with
  | malformedKey hkey hmalformed =>
    exact predicate?_of_error (rawValue_view_of_malformed hkey hmalformed tree)
  | wrongType hnames hblocked =>
    have hwalk : Json.walk [] _ tree = .error _ := Json.walk_eq_error_iff.2 ⟨_, _, hblocked, rfl⟩
    exact predicate?_of_error ((rawValue_view_of_names hnames tree).trans hwalk)
  | absent hnames hvanishes =>
    have hwalk : Json.walk [] _ tree = .ok none := Json.walk_eq_ok_none_iff.2 hvanishes
    exact predicate?_of_none ((rawValue_view_of_names hnames tree).trans hwalk)
  | invalid hnames harrives hread =>
    have hwalk : Json.walk [] _ tree = .ok (some _) := Json.walk_eq_ok_some_iff.2 harrives
    rw [predicate?_of_some ((rawValue_view_of_names hnames tree).trans hwalk), hread]
    rfl
  | found hnames harrives hread =>
    have hwalk : Json.walk [] _ tree = .ok (some _) := Json.walk_eq_ok_some_iff.2 harrives
    rw [predicate?_of_some ((rawValue_view_of_names hnames tree).trans hwalk), hread]
    rfl

theorem Lookup.exists_key_of_blocked {what : Lookup} {tree : Json} {names front : List String}
    {kind : Json.Kind} (hnames : what.names? = some names)
    (hblocked : tree.Blocked names front kind) (hfront : front ≠ []) :
    ∃ rest, what.key = some (".".intercalate front ++ "." ++ rest) := by
  obtain ⟨⟨next, back, rfl⟩, -⟩ := hblocked
  unfold Lookup.names? at hnames
  split at hnames
  · simp at hnames
  · next key hkey =>
    have hjoin : ".".intercalate (front ++ next :: back) = key :=
      ConfigKey.join_of_segments? hnames
    rw [String.intercalate_append_of_ne_nil hfront (List.cons_ne_nil next back)] at hjoin
    exact ⟨".".intercalate (next :: back), by rw [hkey, hjoin]⟩

theorem exists_offender {tree node : Json} {names : List String} {limit : Nat} {x : Violation}
    (htree : tree.Ordered) (harrives : tree.Arrives names node)
    (hread : Predicate.ofJsonWithin limit node = .error x) :
    Position.FirstBreak limit ⟨.predicate, 0, node⟩ x ∧
      ∃ offender, node.at? x.path.segments = some offender ∧
        tree.at? (names.map .key ++ x.path.segments) = some offender := by
  have hnode := Json.ordered_of_at? htree harrives.1
  have hbreak := (firstBreak_of_within limit (limit + 1) 0 rfl).1 node x hnode hread
  obtain ⟨offender, hoffender⟩ := hbreak.exists_node
  refine ⟨hbreak, offender, hoffender, ?_⟩
  have hnames : tree.at? (names.map .key) = some node := harrives.1
  rw [Json.at?_append, hnames]
  exact hoffender

/-- Every lookup in a tree has the outcome whose condition holds, and no other. -/
theorem predicate?_view_eq_iff_outcome {tree : Json} (htree : tree.Ordered) (what : Lookup) :
    (∀ result, tree.view.predicate? what = result ↔ what.Outcome tree result) ∧
    (∀ names front kind, what.names? = some names → tree.Blocked names front kind →
      ∃ place, (ReadError.config (.wrongType front kind)).message =
          "Config error: Invalid type in config for key '" ++ place ++ "', got " ++ kind.name ++
            ", wanted object" ∧
        (front = [] ∧ place = "<root>" ∨
          front ≠ [] ∧ place = ".".intercalate front ∧
            ∃ rest, what.key = some (place ++ "." ++ rest))) ∧
    (∀ location x, tree.view.predicate? what = .error (.invalid location x) →
      location = what.key.getD "<root>" ∧
      (ReadError.invalid location x).message =
        "Invalid predicate in config at '" ++ location ++ "': " ++ x.reason ++
          " (at " ++ x.path.render ++ ")" ∧
      ∃ names node, what.names? = some names ∧ tree.Arrives names node ∧
        Position.FirstBreak what.limit ⟨.predicate, 0, node⟩ x ∧
        ∃ offender, node.at? x.path.segments = some offender ∧
          tree.at? (names.map .key ++ x.path.segments) = some offender) ∧
    (∀ p, tree.view.predicate? what = .ok (some p) →
      ∃ names, what.names? = some names ∧ tree.Arrives names p.toJson) ∧
    (∀ p, tree.view.predicate what = .ok p ↔ tree.view.predicate? what = .ok (some p)) ∧
    ∀ e, tree.view.predicate what = .error e ↔
      tree.view.predicate? what = .error e ∨
        tree.view.predicate? what = .ok none ∧ e = .missing (what.key.getD "<root>") := by
  have houtcome : ∀ result, tree.view.predicate? what = result ↔ what.Outcome tree result :=
    fun result => ⟨fun h => h ▸ what.outcome_of_predicate? tree, Lookup.Outcome.predicate?_eq⟩
  refine ⟨houtcome, ?_, ?_, ?_, fun _ => predicate_eq_ok_iff,
    fun _ => predicate_eq_error_iff⟩
  · intro names front kind hnames hblocked
    cases front with
    | nil => exact ⟨"<root>", rfl, .inl ⟨rfl, rfl⟩⟩
    | cons first rest =>
      have hkey := what.exists_key_of_blocked hnames hblocked (List.cons_ne_nil first rest)
      exact ⟨".".intercalate (first :: rest), rfl, .inr ⟨List.cons_ne_nil first rest, rfl, hkey⟩⟩
  · intro location x h
    cases (houtcome _).1 h with
    | invalid hnames harrives hread =>
      exact ⟨rfl, rfl, _, _, hnames, harrives, exists_offender htree harrives hread⟩
  · intro p h
    cases (houtcome _).1 h with
    | found hnames harrives hread =>
      have hnode := Json.ordered_of_at? htree harrives.1
      have hsame := (toJson_of_within what.limit (what.limit + 1)).1 _ p hnode hread
      exact ⟨_, hnames, hsame ▸ harrives⟩

theorem predicate?_view_eq_iff_outcome_nested :
    let p : Predicate := .expression [("kind", .primitive (.string "api"))]
    let x : Violation := ⟨⟨[.key "$any", .index 1, .key "kind"]⟩, .unexpected .condition .null⟩
    let tree : Json := .object [("flag", .bool true), ("list", .object [("filter",
      .object [("$any", .array [.string "x", .object [("kind", .null)]])]), ("none", .null),
      ("own", .object [("kind", .string "api")])])]
    tree.Ordered ∧
    tree.view.predicate? ⟨some "list.filter", 64⟩ = .error (.invalid "list.filter" x) ∧
    (∃ offender, tree.at? ([.key "list", .key "filter"] ++ x.path.segments) = some offender) ∧
    tree.view.predicate? ⟨some "flag.a.b", 64⟩ =
      .error (.config (.wrongType ["flag"] .boolean)) ∧
    tree.view.predicate ⟨some "list.none.a", 64⟩ = .error (.missing "list.none.a") ∧
    tree.view.predicate? ⟨some "list.own", 64⟩ = .ok (some p) := by
  intro p x tree
  have htree : tree.Ordered := Json.ordered_canonical tree
  have hfilter := predicate?_view_eq_iff_outcome htree ⟨some "list.filter", 64⟩
  have hflag := predicate?_view_eq_iff_outcome htree ⟨some "flag.a.b", 64⟩
  have hnone := predicate?_view_eq_iff_outcome htree ⟨some "list.none.a", 64⟩
  have hown := predicate?_view_eq_iff_outcome htree ⟨some "list.own", 64⟩
  have hfilterNames : ConfigKey.segments? "list.filter" = some ["list", "filter"] := by
    decide +kernel
  have hflagNames : ConfigKey.segments? "flag.a.b" = some ["flag", "a", "b"] := by decide +kernel
  have hnoneNames : ConfigKey.segments? "list.none.a" = some ["list", "none", "a"] := by
    decide +kernel
  have hownNames : ConfigKey.segments? "list.own" = some ["list", "own"] := by decide +kernel
  have hinvalid := (hfilter.1 (.error (.invalid "list.filter" x))).2
    (.invalid hfilterNames ⟨rfl, by simp⟩ rfl)
  have hblocked : tree.Blocked ["flag", "a", "b"] ["flag"] .boolean :=
    ⟨⟨"a", ["b"], rfl⟩, .bool true, rfl, rfl, by simp, by simp⟩
  have habsent := (hnone.1 (.ok none)).2
    (.absent hnoneNames (.inr ⟨["list", "none"], ["a"], rfl, rfl⟩))
  obtain ⟨-, -, names, node, hnames, -, -, offender, -, hbelow⟩ :=
    hfilter.2.2.1 "list.filter" x hinvalid
  cases hfilterNames.symm.trans hnames
  exact ⟨htree, hinvalid, ⟨offender, hbelow⟩, (hflag.1 _).2 (.wrongType hflagNames hblocked),
    (hnone.2.2.2.2.2 _).2 (.inr ⟨habsent, rfl⟩), (hown.1 _).2 (.found hownNames ⟨rfl, by simp⟩ rfl)⟩

end ConfiguredPredicates
