import ConfiguredPredicates.Proofs.Config.LookupOutcome

/-!
Keys made of two keys. The segments of both stand one behind the other, so a lookup leads
to the node of the first key and goes on from there along the second. What the second
lookup reports it reports beneath that node; told from the tree, the places it names have
the first key before them.
-/

namespace ConfiguredPredicates

/-- What went wrong beneath a node, told from the tree in which the front leads to it. -/
def ConfigError.under (front : List String) : ConfigError → ConfigError
  | .wrongType parent found => .wrongType (front ++ parent) found
  | e => e

def ReadError.under (key : String) (front : List String) : ReadError → ReadError
  | .missing location => .missing (key ++ "." ++ location)
  | .invalid location violation => .invalid (key ++ "." ++ location) violation
  | .config e => .config (e.under front)

namespace ConfigKey

theorem segments?_append_point {first second : String} {names : List String} :
    segments? (first ++ "." ++ second) = some names ↔
      ∃ front back, segments? first = some front ∧ segments? second = some back ∧
        names = front ++ back := by
  have hparts : parts (first ++ "." ++ second).toList =
      parts first.toList ++ parts second.toList := by
    simpa using parts_append_point first.toList second.toList
  simp only [segments?_eq_some_iff, hparts, List.forall_mem_append, List.map_append]
  constructor
  · rintro ⟨⟨hfirst, hsecond⟩, rfl⟩
    exact ⟨_, _, ⟨hfirst, rfl⟩, ⟨hsecond, rfl⟩, rfl⟩
  · rintro ⟨_, _, ⟨hfirst, rfl⟩, ⟨hsecond, rfl⟩, rfl⟩
    exact ⟨⟨hfirst, hsecond⟩, rfl⟩

theorem ne_nil_of_segments? {key : String} {names : List String}
    (h : segments? key = some names) : names ≠ [] := by
  obtain ⟨-, rfl⟩ := segments?_eq_some_iff.1 h
  simp [parts]

end ConfigKey

namespace Json

theorem walk_append (passed front back : List String) (tree : Json) :
    walk passed (front ++ back) tree =
      match walk passed front tree with
      | .error e => .error e
      | .ok none => .ok none
      | .ok (some node) => walk (passed ++ front) back node := by
  induction front generalizing passed tree with
  | nil =>
    rw [List.nil_append, List.append_nil, walk]
    -- Only null is no value, and no walk goes on from it.
    cases tree with
    | null => cases back <;> rfl
    | bool | number | string | array | object => rfl
  | cons name rest ih =>
    rw [List.cons_append]
    rcases eq_object_or_kind_ne tree with ⟨members, rfl⟩ | hkind
    · rw [walk, walk]
      cases members.lookup name with
      | none => rfl
      | some child => simpa using ih (passed ++ [name]) child
    · rw [walk_of_kind_ne hkind, walk_of_kind_ne hkind]
      split <;> rfl

theorem walk_passed (front passed names : List String) (tree : Json) :
    walk (front ++ passed) names tree = (walk passed names tree).mapError (.under front) := by
  induction names generalizing passed tree with
  | nil => rfl
  | cons name rest ih =>
    rcases eq_object_or_kind_ne tree with ⟨members, rfl⟩ | hkind
    · rw [walk, walk]
      cases members.lookup name with
      | none => rfl
      | some child => simpa using ih (passed ++ [name]) child
    · rw [walk_of_kind_ne hkind, walk_of_kind_ne hkind]
      split <;> rfl

theorem lookup_view_of_segments? {key : String} {names : List String}
    (h : ConfigKey.segments? key = some names) (tree : Json) :
    tree.view.lookup key = walk [] names tree := by
  simp [view, lookupKey, ConfigKey.segments, h, bind, Except.bind]

end Json

theorem ConfigError.placeName_append {key : String} {front : List String}
    (hkey : ConfigKey.segments? key = some front) (parent : List String) :
    placeName (front ++ parent) =
      if parent = [] then key else key ++ "." ++ ".".intercalate parent := by
  have hfront := ConfigKey.ne_nil_of_segments? hkey
  have hjoin : ".".intercalate front = key := ConfigKey.join_of_segments? hkey
  have hsegments : (front ++ parent).isEmpty = false := by simp [hfront]
  rw [placeName, hsegments, if_neg Bool.false_ne_true, ConfigKey.join]
  split
  · next hparent => rw [hparent, List.append_nil, hjoin]
  · next hparent => rw [String.intercalate_append_of_ne_nil hfront hparent, hjoin]

theorem predicate?_of_mapError {config inner : ConfigView} {outside inside : Lookup}
    {key : String} {front : List String} (hlimit : outside.limit = inside.limit)
    (hlocation : outside.location = key ++ "." ++ inside.location)
    (h : config.rawValue outside = (inner.rawValue inside).mapError (.under front)) :
    config.predicate? outside = (inner.predicate? inside).mapError (.under key front) := by
  rcases hinner : inner.rawValue inside with e | _ | found <;>
    simp only [hinner, Except.mapError] at h
  · rw [predicate?_of_error h, predicate?_of_error hinner]
    rfl
  · rw [predicate?_of_none h, predicate?_of_none hinner]
    rfl
  · rw [predicate?_of_some h, predicate?_of_some hinner, hlimit, hlocation]
    cases Predicate.ofJsonWithin inside.limit found <;> rfl

section
variable {first second : String} {front back : List String}
  (hfirst : ConfigKey.segments? first = some front)
  (hsecond : ConfigKey.segments? second = some back) (tree : Json)
include hfirst hsecond

theorem Json.lookup_view_append_point :
    tree.view.lookup (first ++ "." ++ second) =
      match tree.view.lookup first with
      | .error e => .error e
      | .ok none => .ok none
      | .ok (some node) => (node.view.lookup second).mapError (.under front) := by
  have hboth := ConfigKey.segments?_append_point.2 ⟨front, back, hfirst, hsecond, rfl⟩
  rw [lookup_view_of_segments? hboth, lookup_view_of_segments? hfirst, walk_append]
  rcases walk [] front tree with e | _ | node
  · rfl
  · rfl
  · have hpassed := walk_passed front [] back node
    rw [List.append_nil] at hpassed
    simp only [lookup_view_of_segments? hsecond, List.nil_append, hpassed]

theorem predicate?_view_append_point (limit : Nat) :
    tree.view.predicate? ⟨some (first ++ "." ++ second), limit⟩ =
      match tree.view.lookup first with
      | .error e => .error (.config e)
      | .ok none => .ok none
      | .ok (some node) =>
        (node.view.predicate? ⟨some second, limit⟩).mapError (.under first front) := by
  have hlookup := Json.lookup_view_append_point hfirst hsecond tree
  rcases htree : tree.view.lookup first with e | _ | node <;> rw [htree] at hlookup
  · exact predicate?_of_error hlookup
  · exact predicate?_of_none hlookup
  · exact predicate?_of_mapError rfl rfl hlookup

theorem predicate_view_append_point (limit : Nat) :
    tree.view.predicate ⟨some (first ++ "." ++ second), limit⟩ =
      match tree.view.lookup first with
      | .error e => .error (.config e)
      | .ok none => .error (.missing (first ++ "." ++ second))
      | .ok (some node) =>
        (node.view.predicate ⟨some second, limit⟩).mapError (.under first front) := by
  rw [ConfigView.predicate, predicate?_view_append_point hfirst hsecond]
  rcases tree.view.lookup first with e | _ | node
  · rfl
  · rfl
  · simp only [ConfigView.predicate]
    rcases node.view.predicate? ⟨some second, limit⟩ with e | _ | p <;> rfl

end

/-- A compound key has the segments of its parts, and a lookup at it is a lookup at the first
part and then, beneath the node that is found, at the second. Only the places that are named
differ: the node is the root of the second lookup. -/
theorem lookup_append_point (tree : Json) (first second : String) :
    (∀ names, ConfigKey.segments (first ++ "." ++ second) = .ok names ↔
      ∃ front back, ConfigKey.segments first = .ok front ∧ ConfigKey.segments second = .ok back ∧
        names = front ++ back) ∧
    ∀ front back, ConfigKey.segments first = .ok front → ConfigKey.segments second = .ok back →
      (tree.view.lookup (first ++ "." ++ second) =
        match tree.view.lookup first with
        | .error e => .error e
        | .ok none => .ok none
        | .ok (some node) => (node.view.lookup second).mapError (.under front)) ∧
      (∀ (node : Json) e, node.view.lookup second = .error e →
        ∃ parent kind inner outer, e = .wrongType parent kind ∧
          e.message = "Config error: Invalid type in config for key '" ++ inner ++ "', got " ++
            kind.name ++ ", wanted object" ∧
          (e.under front).message = "Config error: Invalid type in config for key '" ++ outer ++
            "', got " ++ kind.name ++ ", wanted object" ∧
          (inner = "<root>" ∧ outer = first ∨
            inner = ".".intercalate parent ∧ parent ≠ [] ∧ outer = first ++ "." ++ inner)) ∧
      ∀ limit,
        (tree.view.predicate? ⟨some (first ++ "." ++ second), limit⟩ =
          match tree.view.lookup first with
          | .error e => .error (.config e)
          | .ok none => .ok none
          | .ok (some node) =>
            (node.view.predicate? ⟨some second, limit⟩).mapError (.under first front)) ∧
        tree.view.predicate ⟨some (first ++ "." ++ second), limit⟩ =
          match tree.view.lookup first with
          | .error e => .error (.config e)
          | .ok none => .error (.missing (first ++ "." ++ second))
          | .ok (some node) =>
            (node.view.predicate ⟨some second, limit⟩).mapError (.under first front) := by
  simp only [ConfigKey.segments_eq_ok_iff]
  refine ⟨fun names => ConfigKey.segments?_append_point, fun front back hfirst hsecond => ?_⟩
  refine ⟨Json.lookup_view_append_point hfirst hsecond tree, fun node e h => ?_, fun limit =>
    ⟨predicate?_view_append_point hfirst hsecond tree limit,
      predicate_view_append_point hfirst hsecond tree limit⟩⟩
  rw [Json.lookup_view_of_segments? hsecond] at h
  obtain ⟨parent, kind, -, rfl⟩ := Json.walk_eq_error_iff.1 h
  refine ⟨parent, kind, ConfigError.placeName parent, ConfigError.placeName (front ++ parent),
    rfl, rfl, rfl, ?_⟩
  rw [ConfigError.placeName_append hfirst]
  by_cases hparent : parent = []
  · exact .inl ⟨by rw [hparent]; rfl, if_pos hparent⟩
  · have hname : ConfigError.placeName parent = ".".intercalate parent := by
      simp [ConfigError.placeName, hparent, ConfigKey.join]
    exact .inr ⟨hname, hparent, by rw [if_neg hparent, hname]⟩

theorem lookup_append_point_nested :
    let x : Violation := ⟨⟨[.key "kind"]⟩, .unexpected .condition .null⟩
    let node : Json := .object [("filter", .object [("kind", .null)]), ("flag", .bool true)]
    let tree : Json := .object [("list", node)]
    tree.view.lookup "list" = .ok (some node) ∧
    ConfigKey.segments ("list" ++ "." ++ "flag.a") = .ok ["list", "flag", "a"] ∧
    tree.view.lookup ("list" ++ "." ++ "flag.a") =
      .error (.wrongType (["list"] ++ ["flag"]) .boolean) ∧
    (ConfigError.wrongType (["list"] ++ ["flag"]) .boolean).message =
      "Config error: Invalid type in config for key 'list.flag', got boolean, wanted object" ∧
    tree.view.predicate? ⟨some ("list" ++ "." ++ "filter"), 64⟩ =
      .error (.invalid ("list" ++ "." ++ "filter") x) := by
  intro x node tree
  have hlist : ConfigKey.segments? "list" = some ["list"] := by decide +kernel
  have hflag : ConfigKey.segments? "flag.a" = some ["flag", "a"] := by decide +kernel
  have hfilter : ConfigKey.segments? "filter" = some ["filter"] := by decide +kernel
  have hlist' := ConfigKey.segments_eq_ok_iff.2 hlist
  have hflag' := ConfigKey.segments_eq_ok_iff.2 hflag
  have hnode : tree.view.lookup "list" = .ok (some node) :=
    Json.lookup_view_of_segments? hlist tree
  have hblocked : node.view.lookup "flag.a" = .error (.wrongType ["flag"] .boolean) :=
    Json.lookup_view_of_segments? hflag node
  have hfound : node.view.rawValue ⟨some "filter", 64⟩ =
      .ok (some (.object [("kind", .null)])) :=
    Json.lookup_view_of_segments? hfilter node
  have hinvalid : node.view.predicate? ⟨some "filter", 64⟩ = .error (.invalid "filter" x) :=
    predicate?_of_some hfound
  obtain ⟨hsegments, hflags⟩ := lookup_append_point tree "list" "flag.a"
  obtain ⟨-, hfilters⟩ := lookup_append_point tree "list" "filter"
  have hlookup := (hflags _ _ hlist' hflag').1
  have hread := ((hfilters _ _ hlist' (ConfigKey.segments_eq_ok_iff.2 hfilter)).2.2 64).1
  rw [hnode] at hlookup hread
  refine ⟨hnode, (hsegments _).2 ⟨_, _, hlist', hflag', rfl⟩, hlookup.trans ?_, by decide +kernel,
    hread.trans ?_⟩
  · simp only [hblocked]
    rfl
  · simp only [hinvalid]
    rfl

end ConfiguredPredicates
