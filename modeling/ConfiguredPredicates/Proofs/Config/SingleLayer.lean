import ConfiguredPredicates.Proofs.Config.PathExpressions
import ConfiguredPredicates.Proofs.Config.Walk

/-!
Configurations of a single layer. A layer whose top-level keys are single steps becomes
the tree of settings that it is written as, and reading that tree gives the layer back.
Whatever the keys of a layer are, the members of the root are single steps.
-/

namespace ConfiguredPredicates

namespace Setting

mutual
theorem toJson_ofJson : (v : Json) → (ofJson v).toJson = .ok v
  | .null | .bool _ | .string _ => rfl
  | .number (.whole n) => by simp [ofJson, toJson, wholeNumber, Number.ofInt?_value]
  | .number (.float x) => by simp [ofJson, toJson, floatNumber, Number.ofFloat?_value]
  | .array items => by
    rw [ofJson, toJson, itemsToJson_ofItems 0 items]
    rfl
  | .object members => by
    rw [ofJson, toJson, membersToJson_ofMembers members]
    rfl

theorem itemsToJson_ofItems : (position : Nat) → (items : List Json) →
    itemsToJson position (ofItems items) = .ok items
  | _, [] => rfl
  | position, item :: rest => by
    rw [ofItems, itemsToJson, toJson_ofJson item, itemsToJson_ofItems (position + 1) rest]
    rfl

theorem membersToJson_ofMembers : (members : List (String × Json)) →
    membersToJson (ofMembers members) = .ok members
  | [] => rfl
  | (key, value) :: rest => by
    rw [ofMembers, membersToJson, toJson_ofJson value, membersToJson_ofMembers rest]
    rfl
end

theorem lookup_ofMembers (key : String) (members : List (String × Json)) :
    (ofMembers members).lookup key = (members.lookup key).map ofJson := by
  induction members with
  | nil => rfl
  | cons member rest ih =>
    obtain ⟨name, value⟩ := member
    rw [ofMembers, List.lookup_cons, List.lookup_cons, ih]
    split <;> rfl

theorem find?_ofJson (names : List String) (v : Json) :
    (ofJson v).find? (names.map .key) = (v.along? names).map ofJson := by
  induction names generalizing v with
  | nil => simp [find?]
  | cons name rest ih =>
    rcases v.eq_object_or_kind_ne with ⟨members, rfl⟩ | hkind
    · rw [ofJson, List.map_cons, find?, lookup_ofMembers, Json.along?_object]
      cases members.lookup name with
      | none => rfl
      | some child => exact ih child
    · rw [Json.along?_of_kind_ne hkind]
      match v, hkind with
      | .null, _ | .bool _, _ | .string _, _ | .array _, _ => rfl
      | .number (.whole _), _ | .number (.float _), _ => rfl

theorem keys_ofMembers (members : List (String × Json)) :
    Entries.keys (ofMembers members) = Entries.keys members := by
  induction members with
  | nil => rfl
  | cons member rest ih =>
    obtain ⟨name, value⟩ := member
    simp only [ofMembers, Entries.keys, List.map_cons] at *
    rw [ih]

mutual
theorem mergeOver_ofJson_null : (v : Json) → v.Ordered → mergeOver (ofJson v) .null = ofJson v
  | .null, _ | .bool _, _ | .string _, _ | .array _, _ => rfl
  | .number (.whole _), _ | .number (.float _), _ => rfl
  | .object members, hv => by
    have hsorted : Entries.Sorted ([] ++ ofMembers members) := by
      rw [List.nil_append, Entries.sorted_iff_keys, keys_ofMembers, ← Entries.sorted_iff_keys]
      exact hv.sorted
    rw [ofJson, mergeOver]
    exact congrArg table (mergeMembers_ofMembers members hv.of_member [] hsorted)

theorem mergeMembers_ofMembers : (members : List (String × Json)) →
    (∀ member ∈ members, member.2.Ordered) → (existing : List (String × Setting)) →
    Entries.Sorted (existing ++ ofMembers members) →
    mergeMembers (ofMembers members) existing = existing ++ ofMembers members
  | [], _, existing, _ => (List.append_nil existing).symm
  | (key, value) :: rest, hmembers, existing, hsorted => by
    obtain ⟨hvalue, hrest⟩ := List.forall_mem_cons.1 hmembers
    -- The members that are entered come after all that are there, so each goes to the end.
    have hbelow : ∀ entry ∈ existing, entry.1 < key := fun entry hentry =>
      (List.pairwise_append.1 hsorted).2.2 entry hentry (key, ofJson value) List.mem_cons_self
    have hsplit : existing ++ ofMembers ((key, value) :: rest) =
        existing ++ [(key, ofJson value)] ++ ofMembers rest := by
      simp [ofMembers]
    rw [hsplit] at hsorted ⊢
    rw [ofMembers, mergeMembers, Entries.lookup_eq_none_of_forall_lt hbelow, Option.getD_none,
      mergeOver_ofJson_null value hvalue, Entries.insert_of_forall_lt _ hbelow,
      mergeMembers_ofMembers rest hrest _ hsorted]
end

/-- Members under single steps are merged into the root as into any other table. -/
theorem addLayer_of_singleStep {layer : List (String × Json)}
    (hlayer : ∀ member ∈ layer, IsSingleStep member.1) (existing : List (String × Setting)) :
    (table existing).addLayer layer = .table (mergeMembers (ofMembers layer) existing) := by
  induction layer generalizing existing with
  | nil => rfl
  | cons member rest ih =>
    obtain ⟨key, value⟩ := member
    obtain ⟨hkey, hrest⟩ := List.forall_mem_cons.1 hlayer
    -- A path of one step changes the root as a merge of that one member does.
    rw [addLayer, List.foldl_cons, hkey.topLevelPath, ofMembers, mergeMembers]
    exact ih hrest _

theorem addLayer_eq_ofJson {layer : List (String × Json)}
    (hlayer : ∀ member ∈ layer, IsSingleStep member.1) (hordered : (Json.object layer).Ordered) :
    (table []).addLayer layer = ofJson (.object layer) := by
  rw [addLayer_of_singleStep hlayer]
  exact mergeOver_ofJson_null (.object layer) hordered

theorem exists_addLayer {existing : List (String × Setting)} (layer : List (String × Json))
    (hexisting : ∀ entry ∈ existing, IsSingleStep entry.1) :
    ∃ members, (table existing).addLayer layer = .table members ∧
      ∀ entry ∈ members, IsSingleStep entry.1 := by
  induction layer generalizing existing with
  | nil => exact ⟨existing, rfl, hexisting⟩
  | cons member rest ih =>
    obtain ⟨name, steps, hpath, hname⟩ := exists_topLevelPath member.1
    rw [addLayer, List.foldl_cons, hpath, put, change]
    refine ih fun entry hentry => ?_
    rcases Entries.mem_insert hentry with rfl | hentry
    · exact hname
    · exact hexisting entry hentry

theorem keys_of_membersToJson {members : List (String × Setting)} {read : List (String × Json)}
    (h : membersToJson members = .ok read) : Entries.keys read = Entries.keys members := by
  induction members generalizing read with
  | nil =>
    cases h
    rfl
  | cons member rest ih =>
    obtain ⟨key, value⟩ := member
    rw [membersToJson] at h
    obtain ⟨_, -, h⟩ := Json.Text.bind_eq_ok.1 h
    obtain ⟨others, hrest, hmembers⟩ := Json.Text.bind_eq_ok.1 h
    cases hmembers
    exact congrArg (key :: ·) (ih hrest)

end Setting

end ConfiguredPredicates
