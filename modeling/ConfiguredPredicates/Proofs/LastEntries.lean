import ConfiguredPredicates.Entries
import Mathlib.Data.List.Nodup

/-!
What a map of entries knows of the pairs that were entered: the last value of every key and
nothing else. Maps in key order are told apart by their entries, so the order of the pairs
does not matter where their keys are distinct.
-/

namespace ConfiguredPredicates.Entries

universe u
variable {α : Type u} {pairs others entries : List (String × α)} {key : String} {value : α}

theorem lookup_foldl_insert (pairs entries : List (String × α)) (key : String) :
    (pairs.foldl (fun entries pair => insert pair.1 pair.2 entries) entries).lookup key =
      (pairs.reverse.lookup key).or (entries.lookup key) := by
  induction pairs generalizing entries with
  | nil => rfl
  | cons pair rest ih =>
    rw [List.foldl_cons, ih, List.reverse_cons, List.lookup_append, Option.or_assoc]
    congr 1
    by_cases hkey : key = pair.1
    · rw [hkey, lookup_insert_self, List.lookup_cons_self, Option.some_or]
    · rw [lookup_insert_of_ne pair.2 hkey, List.lookup_cons, beq_false_of_ne hkey]
      rfl

/-- The value of a key is the one that was entered last. -/
theorem lookup_ofList_eq_some_iff :
    (ofList pairs).lookup key = some value ↔
      ∃ before after, pairs = before ++ (key, value) :: after ∧ ∀ pair ∈ after, pair.1 ≠ key := by
  rw [ofList, lookup_foldl_insert, List.lookup_nil, Option.or_none, List.lookup_eq_some_iff]
  constructor
  · rintro ⟨after, before, hpairs, hafter⟩
    refine ⟨before.reverse, after.reverse, by simpa using congrArg List.reverse hpairs, ?_⟩
    intro pair hpair
    exact (bne_iff_ne.1 (hafter pair (List.mem_reverse.1 hpair))).symm
  · rintro ⟨before, after, rfl, hafter⟩
    refine ⟨after.reverse, before.reverse, by simp, fun pair hpair => ?_⟩
    exact bne_iff_ne.2 (hafter pair (List.mem_reverse.1 hpair)).symm

theorem mem_keys_iff_lookup : key ∈ keys entries ↔ ∃ value, entries.lookup key = some value := by
  rw [← Option.isSome_iff_exists, List.lookup_isSome_iff, keys, List.mem_map]
  simp only [beq_iff_eq, @eq_comm _ key]

theorem mem_keys_ofList : key ∈ keys (ofList pairs) ↔ key ∈ keys pairs := by
  have hreverse : key ∈ keys pairs ↔ key ∈ keys pairs.reverse := by simp [keys]
  rw [hreverse, mem_keys_iff_lookup, mem_keys_iff_lookup, ofList, lookup_foldl_insert,
    List.lookup_nil, Option.or_none]

theorem mem_iff_lookup (h : Sorted entries) :
    (key, value) ∈ entries ↔ entries.lookup key = some value := by
  refine ⟨lookup_of_mem h, fun hlookup => ?_⟩
  obtain ⟨before, after, rfl, -⟩ := List.lookup_eq_some_iff.1 hlookup
  simp

theorem nodup_keys_of_sorted (h : Sorted entries) : (keys entries).Nodup :=
  ((sorted_iff_keys entries).1 h).imp String.ne_of_lt

theorem nodup_of_sorted (h : Sorted entries) : entries.Nodup :=
  List.Nodup.of_map Prod.fst (nodup_keys_of_sorted h)

theorem eq_of_mem_iff {fs : List (String × α)} (hentries : Sorted entries) (hfs : Sorted fs)
    (h : ∀ entry, entry ∈ entries ↔ entry ∈ fs) : entries = fs := by
  have hperm : entries.Perm fs :=
    (List.perm_ext_iff_of_nodup (nodup_of_sorted hentries) (nodup_of_sorted hfs)).2 h
  exact hperm.eq_of_pairwise (fun _ _ _ _ hab hba => absurd hab (String.lt_asymm hba)) hentries hfs

theorem mem_ofList_of_nodup (hkeys : (keys pairs).Nodup) {pair : String × α} :
    pair ∈ ofList pairs ↔ pair ∈ pairs := by
  refine ⟨mem_of_mem_ofList, fun hpair => ?_⟩
  obtain ⟨before, after, rfl⟩ := List.append_of_mem hpair
  have hafter : ∀ later ∈ after, later.1 ≠ pair.1 := by
    intro later hlater heq
    rw [keys, List.map_append, List.map_cons, List.nodup_append, List.nodup_cons] at hkeys
    exact hkeys.2.1.1 (heq ▸ List.mem_map_of_mem hlater)
  rw [mem_iff_lookup (sorted_ofList _), lookup_ofList_eq_some_iff]
  exact ⟨before, after, rfl, hafter⟩

/-- Distinct keys may be entered in any order. -/
theorem ofList_eq_of_perm (h : pairs.Perm others) (hkeys : (keys pairs).Nodup) :
    ofList pairs = ofList others := by
  have hothers : (keys others).Nodup := (h.map Prod.fst).nodup_iff.1 hkeys
  refine eq_of_mem_iff (sorted_ofList pairs) (sorted_ofList others) fun pair => ?_
  rw [mem_ofList_of_nodup hkeys, mem_ofList_of_nodup hothers, h.mem_iff]

end ConfiguredPredicates.Entries
