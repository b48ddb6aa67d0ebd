/-!
Finite maps from strings as entry lists. A list in strictly increasing key
order is the only representation of its map; `insert` keeps that order and
replaces the value of a key that is already there, and `ofList` lets the last
of several entries with one key win. Keys compare by code point.
-/

namespace ConfiguredPredicates.Entries

universe u
variable {α : Type u}

/-- Keys strictly increase from entry to entry, so no key occurs twice. -/
def Sorted (entries : List (String × α)) : Prop :=
  entries.Pairwise fun a b => a.1 < b.1

def insert (key : String) (value : α) : List (String × α) → List (String × α)
  | [] => [(key, value)]
  | (k, v) :: rest =>
    if key < k then (key, value) :: (k, v) :: rest
    else if key = k then (key, value) :: rest
    else (k, v) :: insert key value rest

/-- Enters every pair in turn, so that the last value of a key stays. -/
def ofList (pairs : List (String × α)) : List (String × α) :=
  pairs.foldl (fun entries pair => insert pair.1 pair.2 entries) []

def keys (entries : List (String × α)) : List String :=
  entries.map Prod.fst

@[simp] theorem lookup_insert_self (key : String) (value : α)
    (entries : List (String × α)) :
    (insert key value entries).lookup key = some value := by
  induction entries with
  | nil => simp [insert]
  | cons entry rest ih =>
    obtain ⟨k, v⟩ := entry
    rw [insert]
    split
    · simp
    · split
      · simp
      · next hne => simp [List.lookup_cons, beq_false_of_ne hne, ih]

theorem lookup_insert_of_ne {key other : String} (value : α) (hne : other ≠ key)
    (entries : List (String × α)) :
    (insert key value entries).lookup other = entries.lookup other := by
  induction entries with
  | nil => simp [insert, List.lookup_cons, beq_false_of_ne hne]
  | cons entry rest ih =>
    obtain ⟨k, v⟩ := entry
    rw [insert]
    split
    · simp [List.lookup_cons, beq_false_of_ne hne]
    · split
      · next heq => subst heq; simp [List.lookup_cons, beq_false_of_ne hne]
      · simp [List.lookup_cons, ih]

theorem mem_insert {key : String} {value : α} {entries : List (String × α)}
    {entry : String × α} (h : entry ∈ insert key value entries) :
    entry = (key, value) ∨ entry ∈ entries := by
  induction entries with
  | nil => simpa [insert] using h
  | cons head rest ih =>
    obtain ⟨k, v⟩ := head
    rw [insert] at h
    split at h
    · simpa using h
    · split at h
      · rcases List.mem_cons.1 h with h | h
        · exact .inl h
        · exact .inr (List.mem_cons_of_mem _ h)
      · rcases List.mem_cons.1 h with h | h
        · exact .inr (h ▸ List.mem_cons_self)
        · exact (ih h).imp_right (List.mem_cons_of_mem _)

theorem sorted_insert (key : String) (value : α) {entries : List (String × α)}
    (h : Sorted entries) : Sorted (insert key value entries) := by
  induction entries with
  | nil => simp [insert, Sorted]
  | cons head rest ih =>
    obtain ⟨k, v⟩ := head
    obtain ⟨hhead, hrest⟩ := List.pairwise_cons.1 h
    rw [insert]
    split
    · next hlt =>
      refine List.pairwise_cons.2 ⟨fun entry hmem => ?_, h⟩
      rcases List.mem_cons.1 hmem with rfl | hmem
      · exact hlt
      · exact String.lt_trans hlt (hhead entry hmem)
    · split
      · next heq => subst heq; exact List.pairwise_cons.2 ⟨hhead, hrest⟩
      · next hnlt hne =>
        refine List.pairwise_cons.2 ⟨fun entry hmem => ?_, ih hrest⟩
        rcases mem_insert hmem with rfl | hmem
        · have hle : k ≤ key := String.not_lt.1 hnlt
          rcases Decidable.em (k < key) with hlt | hnlt'
          · exact hlt
          · exact absurd (String.le_antisymm (String.not_lt.1 hnlt') hle) hne
        · exact hhead entry hmem

theorem sorted_ofList (pairs : List (String × α)) : Sorted (ofList pairs) := by
  -- The fold starts with what was entered before, so the claim is about any such start.
  suffices h : ∀ entries : List (String × α), Sorted entries →
      Sorted (pairs.foldl (fun entries pair => insert pair.1 pair.2 entries) entries) from
    h [] List.Pairwise.nil
  induction pairs with
  | nil => exact fun _ h => h
  | cons pair rest ih => exact fun _ h => ih _ (sorted_insert pair.1 pair.2 h)

theorem mem_of_mem_ofList {pairs : List (String × α)} {entry : String × α}
    (h : entry ∈ ofList pairs) : entry ∈ pairs := by
  suffices hfold : ∀ entries : List (String × α),
      entry ∈ pairs.foldl (fun entries pair => insert pair.1 pair.2 entries) entries →
        entry ∈ pairs ∨ entry ∈ entries by
    simpa using hfold [] h
  clear h
  induction pairs with
  | nil => exact fun _ h => .inr h
  | cons pair rest ih =>
    intro entries h
    rcases ih _ h with hrest | hentries
    · exact .inl (List.mem_cons_of_mem _ hrest)
    · rcases mem_insert hentries with rfl | hentries
      · exact .inl List.mem_cons_self
      · exact .inr hentries

theorem sorted_iff_keys (entries : List (String × α)) :
    Sorted entries ↔ (keys entries).Pairwise (· < ·) := by
  rw [Sorted, keys, List.pairwise_map]

theorem insert_of_forall_lt {key : String} (value : α) {entries : List (String × α)}
    (h : ∀ entry ∈ entries, entry.1 < key) :
    insert key value entries = entries ++ [(key, value)] := by
  induction entries with
  | nil => rfl
  | cons entry rest ih =>
    obtain ⟨k, v⟩ := entry
    have hlt : k < key := h (k, v) List.mem_cons_self
    have hne : key ≠ k := fun heq => String.lt_irrefl k (heq ▸ hlt)
    rw [insert, if_neg (String.lt_asymm hlt), if_neg hne,
      ih fun entry hmem => h entry (List.mem_cons_of_mem _ hmem), List.cons_append]

theorem lookup_eq_none_of_forall_lt {key : String} {entries : List (String × α)}
    (h : ∀ entry ∈ entries, entry.1 < key) : entries.lookup key = none := by
  rw [List.lookup_eq_none_iff]
  intro entry hentry
  have hne : key ≠ entry.1 := fun heq => String.lt_irrefl key (heq ▸ h entry hentry)
  simp [hne]

theorem ofList_of_sorted {entries : List (String × α)} (h : Sorted entries) :
    ofList entries = entries := by
  -- What is entered already is a beginning of the map, and every further key is above it.
  suffices hfold : ∀ front : List (String × α), Sorted (front ++ entries) →
      entries.foldl (fun all pair => insert pair.1 pair.2 all) front = front ++ entries from
    hfold [] h
  clear h
  induction entries with
  | nil => simp
  | cons pair rest ih =>
    intro front hsorted
    have hbelow : ∀ entry ∈ front, entry.1 < pair.1 := fun entry hmem =>
      (List.pairwise_append.1 hsorted).2.2 entry hmem pair List.mem_cons_self
    have hsplit : front ++ pair :: rest = front ++ [pair] ++ rest := by simp
    rw [List.foldl_cons, insert_of_forall_lt pair.2 hbelow, hsplit]
    exact ih _ (hsplit ▸ hsorted)

theorem lookup_of_mem {key : String} {value : α} {entries : List (String × α)}
    (h : Sorted entries) (hmem : (key, value) ∈ entries) : entries.lookup key = some value := by
  induction entries with
  | nil => simp at hmem
  | cons entry rest ih =>
    obtain ⟨k, v⟩ := entry
    obtain ⟨hhead, hrest⟩ := List.pairwise_cons.1 h
    rcases List.mem_cons.1 hmem with heq | hmem
    · obtain ⟨rfl, rfl⟩ := Prod.mk.inj heq
      simp
    · have hlt : k < key := hhead _ hmem
      have hne : key ≠ k := fun heq => String.lt_irrefl k (heq ▸ hlt)
      simp [List.lookup_cons, beq_false_of_ne hne, ih hrest hmem]

theorem mem_front_of_lt {front back : List (String × α)} {entry earlier : String × α}
    (h : Sorted (front ++ entry :: back)) (hmem : earlier ∈ front ++ entry :: back)
    (hlt : earlier.1 < entry.1) : earlier ∈ front := by
  obtain ⟨-, hback, -⟩ := List.pairwise_append.1 h
  have hnot : earlier ∉ entry :: back := by
    intro hlater
    rcases List.mem_cons.1 hlater with rfl | hlater
    · exact String.lt_irrefl _ hlt
    · exact String.lt_asymm hlt ((List.pairwise_cons.1 hback).1 earlier hlater)
  exact (List.mem_append.1 hmem).resolve_right hnot

end ConfiguredPredicates.Entries
