import ConfiguredPredicates.Json.Printer
import ConfiguredPredicates.Json.Text.Value
import ConfiguredPredicates.Proofs.Printed.Numbers
import ConfiguredPredicates.Proofs.Written.Strings
import Mathlib.Data.List.DropRight

/-!
Lists in brackets. Items that are read from their texts, where each of them may leave
blanks behind, are read from the texts with commas in between, up to the closing bracket;
they fit when all of them do.
-/

namespace ConfiguredPredicates.Json.Text

open NumberLiteral (Ends)

def Blank (cs : List Char) : Prop := ∀ c ∈ cs, isBlank c = true

theorem blank_nil : Blank [] := by simp [Blank]

theorem skipBlanks_cons {c : Char} (hc : isBlank c = false) (cs : List Char) :
    skipBlanks (c :: cs) = c :: cs := by
  simp [skipBlanks, hc]

theorem Blank.skipBlanks_append {gap : List Char} (hgap : Blank gap) (cs : List Char) :
    skipBlanks (gap ++ cs) = skipBlanks cs :=
  List.dropWhile_append_of_pos hgap

theorem skipBlanks_skipBlanks (cs : List Char) : skipBlanks (skipBlanks cs) = skipBlanks cs :=
  List.dropWhile_idempotent ..

theorem skipBlanks_append {c : Char} {text cs : List Char} (h : skipBlanks text = c :: cs)
    (more : List Char) : skipBlanks (text ++ more) = c :: (cs ++ more) := by
  rw [skipBlanks] at h ⊢
  rw [List.dropWhile_append, h]
  rfl

theorem exists_gap_of_skipBlanks {c : Char} {cs rest : List Char} (h : skipBlanks cs = c :: rest) :
    isBlank c = false ∧ ∃ gap, Blank gap ∧ cs = gap ++ c :: rest := by
  have hsplit : cs.takeWhile isBlank ++ c :: rest = cs := by
    rw [← h]
    exact List.takeWhile_append_dropWhile
  have hhead := List.head?_dropWhile_not isBlank cs
  rw [← skipBlanks, h] at hhead
  exact ⟨hhead, cs.takeWhile isBlank, fun _ => List.mem_takeWhile_imp, hsplit.symm⟩

theorem Blank.ends_append {gap rest : List Char} (hgap : Blank gap) (hrest : Ends rest) :
    Ends (gap ++ rest) := by
  obtain _ | ⟨c, gap⟩ := gap
  · exact hrest
  · rintro _ ⟨⟩
    have hc := hgap c List.mem_cons_self
    simp only [isBlank, Bool.or_eq_true, decide_eq_true_eq] at hc
    rcases hc with ((rfl | rfl) | rfl) | rfl <;> decide

/-- What was read, unless it does not fit. -/
def ifFits (fits : Bool) (a : α) (rest : List Char) : Except Fault (α × List Char) :=
  if fits then .ok (a, rest) else .error .malformed

theorem bind_ifFits (fits : Bool) (a : α) (rest : List Char) (f : α → β) :
    (do
      let (a, rest) ← ifFits fits a rest
      .ok (f a, rest)) = ifFits fits (f a) rest := by
  cases fits <;> rfl

theorem cons_ifFits (fits others : Bool) (x : α) (xs : List α) (behind rest : List Char)
    (following : List Char → Except Fault (List α × List Char))
    (hfollowing : following behind = ifFits others xs rest) :
    (do
      let (first, rest) ← ifFits fits x behind
      let (others, rest) ← following rest
      .ok (first :: others, rest)) = ifFits (fits && others) (x :: xs) rest := by
  cases fits with
  | false => rfl
  | true =>
    change (do
      let (others, rest) ← following behind
      .ok (x :: others, rest)) = _
    rw [hfollowing, Bool.true_and]
    exact bind_ifFits others xs rest (x :: ·)

inductive IsClosing : Char → Prop
  | array : IsClosing ']'
  | object : IsClosing '\x7d'

theorem IsClosing.isBlank {closing : Char} (h : IsClosing closing) : isBlank closing = false := by
  cases h <;> rfl

theorem IsClosing.comma_ne {closing : Char} (h : IsClosing closing) : ',' ≠ closing := by
  cases h <;> decide

theorem IsClosing.ends {closing : Char} (h : IsClosing closing) (rest : List Char) :
    Ends (closing :: rest) := by
  rintro _ ⟨⟩
  cases h <;> decide

theorem ends_comma (rest : List Char) : Ends (',' :: rest) := by
  rintro _ ⟨⟩
  decide

/-- The first character of the text that is no blank closes no list. -/
def Opens (text : List Char) : Prop := ∃ c cs, skipBlanks text = c :: cs ∧ ¬ IsClosing c

/-- Wherever the text stands, it is read as the item, if that fits, but for blanks behind. -/
def Reads (item : Reader α) (text : List Char) (fits : Bool) (a : α) : Prop :=
  ∃ behind, Blank behind ∧ ∀ rest, Ends rest → item (text ++ rest) = ifFits fits a (behind ++ rest)

theorem length_le_length_flatMap_comma (texts : List (List Char)) :
    texts.length ≤ (texts.flatMap (',' :: ·)).length := by
  induction texts with
  | nil => simp
  | cons text rest ih =>
    rw [List.flatMap_cons, List.length_append, List.length_cons, List.length_cons]
    omega

section
variable {ι α : Type} {closing : Char} {item : Reader α} {text : ι → List Char} {fits : ι → Bool}
  {made : ι → α} {xs : List ι}

theorem ends_behind_item (hclosing : IsClosing closing) (texts : List (List Char))
    (rest : List Char) : Ends (texts.flatMap (',' :: ·) ++ closing :: rest) := by
  cases texts with
  | nil => exact hclosing.ends rest
  | cons text texts => exact ends_comma _

theorem followingItems_texts (hclosing : IsClosing closing)
    (hitem : ∀ x ∈ xs, Reads item (text x) (fits x) (made x)) {gap : List Char} (hgap : Blank gap)
    (rest : List Char) {fuel : Nat} (hfuel : xs.length < fuel) :
    followingItems closing item fuel
        (gap ++ ((xs.map text).flatMap (',' :: ·) ++ closing :: rest)) =
      ifFits (xs.all fits) (xs.map made) rest := by
  induction xs generalizing fuel gap with
  | nil =>
    obtain _ | fuel := fuel
    · cases hfuel
    · simp [followingItems, hgap.skipBlanks_append, skipBlanks_cons hclosing.isBlank, ifFits]
  | cons x xs ih =>
    obtain _ | fuel := fuel
    · cases hfuel
    · obtain ⟨⟨behind, hbehind, hx⟩, hxs⟩ := List.forall_mem_cons.1 hitem
      have hrest := ih hxs hbehind (Nat.lt_of_succ_lt_succ hfuel)
      have hfirst := hx _ (ends_behind_item hclosing (xs.map text) rest)
      rw [List.map_cons, List.flatMap_cons, List.cons_append, List.cons_append, List.append_assoc,
        followingItems, hgap.skipBlanks_append, skipBlanks_cons (by decide)]
      simp only [hclosing.comma_ne, if_false, if_true, hfirst]
      exact cons_ifFits _ _ _ _ _ rest _ hrest

theorem items_commaSeparated (hclosing : IsClosing closing)
    (hitem : ∀ x ∈ xs, Reads item (text x) (fits x) (made x))
    (hskip : ∀ cs, item (skipBlanks cs) = item cs) (hopen : ∀ x ∈ xs, Opens (text x))
    {gap : List Char} (hgap : Blank gap) (rest : List Char) :
    items closing item (gap ++ (commaSeparated (xs.map text) ++ closing :: rest)) =
      ifFits (xs.all fits) (xs.map made) rest := by
  cases xs with
  | nil => simp [items, commaSeparated, hgap.skipBlanks_append, skipBlanks_cons hclosing.isBlank,
      ifFits]
  | cons x xs =>
    obtain ⟨⟨behind, hbehind, hx⟩, hxs⟩ := List.forall_mem_cons.1 hitem
    obtain ⟨c, cs, htext, hopens⟩ := hopen x List.mem_cons_self
    have hne : c ≠ closing := fun heq => hopens (heq ▸ hclosing)
    have hfirst := hx _ (ends_behind_item hclosing (xs.map text) rest)
    have hlength := length_le_length_flatMap_comma (xs.map text)
    have hfuel : xs.length <
        (behind ++ ((xs.map text).flatMap (',' :: ·) ++ closing :: rest)).length + 1 := by
      rw [List.length_map] at hlength
      rw [List.length_append, List.length_append, List.length_cons]
      omega
    have hrest := followingItems_texts hclosing hxs hbehind rest hfuel
    have hstart := skipBlanks_append htext ((xs.map text).flatMap (',' :: ·) ++ closing :: rest)
    rw [← hskip, hstart] at hfirst
    rw [List.map_cons, commaSeparated, List.append_assoc, items, hgap.skipBlanks_append, hstart]
    simp only [hne, if_false, hfirst]
    exact cons_ifFits _ _ _ _ _ rest
      (fun rest => followingItems closing item (rest.length + 1) rest) hrest

end

end ConfiguredPredicates.Json.Text
