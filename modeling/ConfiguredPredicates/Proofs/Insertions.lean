import ConfiguredPredicates.Proofs.Equality.Alike
import ConfiguredPredicates.Proofs.LastEntries
import ConfiguredPredicates.Proofs.OperatorKeys
import Mathlib.Data.List.Dedup

/-!
Property expressions after any run of insertions. A refused call leaves no trace, so an
expression is the map of the accepted calls, where the last of every key counts. Main
statement: what a call returns, what can be seen of the expression and what is read back
from it are all said by the latest calls, whatever their order was.
-/

namespace ConfiguredPredicates.Expression

/-- The last call with a plain key gives it this condition. -/
def Latest (calls : List (String × Condition)) (key : String) (condition : Condition) : Prop :=
  (∀ rest, key ≠ "$" ++ rest) ∧
    ∃ before after, calls = before ++ (key, condition) :: after ∧ ∀ call ∈ after, call.1 ≠ key

def accepted (calls : List (String × Condition)) : List (String × Condition) :=
  calls.filter fun call => !isOperatorKey call.1

section
variable {e : Expression} {calls : List (String × Condition)} {key : String}
  {condition : Condition}

theorem insert_of_operatorKey (hkey : isOperatorKey key = true) :
    e.insert key condition = .error ⟨NodePath.root.atKey key, .reservedKey⟩ :=
  if_pos hkey

theorem insert_of_plain (hkey : isOperatorKey key = false) :
    e.insert key condition =
      .ok (e.get? key, ⟨Entries.insert key condition e.properties⟩) := by
  rw [insert, hkey]
  rfl

theorem attempt_of_error {x : Violation} (h : e.insert key condition = .error x) :
    e.attempt (key, condition) = e := by
  rw [attempt, h]

theorem attempt_of_ok {replaced : Option Condition} {grown : Expression}
    (h : e.insert key condition = .ok (replaced, grown)) :
    e.attempt (key, condition) = grown := by
  rw [attempt, h]

theorem attempts_concat (e : Expression) (calls : List (String × Condition))
    (call : String × Condition) : e.attempts (calls ++ [call]) = (e.attempts calls).attempt call :=
  List.foldl_concat attempt e call calls

theorem properties_attempt (e : Expression) (call : String × Condition) :
    (e.attempt call).properties =
      if !isOperatorKey call.1 then Entries.insert call.1 call.2 e.properties
      else e.properties := by
  obtain ⟨key, condition⟩ := call
  cases hkey : isOperatorKey key with
  | true =>
    rw [attempt_of_error (insert_of_operatorKey hkey)]
    rfl
  | false =>
    rw [attempt_of_ok (insert_of_plain hkey)]
    rfl

theorem properties_attempts (calls : List (String × Condition)) :
    (empty.attempts calls).properties = Entries.ofList (accepted calls) := by
  rw [accepted, Entries.ofList, List.foldl_filter]
  suffices h : ∀ e : Expression, (e.attempts calls).properties =
      calls.foldl (fun entries call => if !isOperatorKey call.1 then
        Entries.insert call.1 call.2 entries else entries) e.properties from h empty
  induction calls with
  | nil => exact fun _ => rfl
  | cons call rest ih =>
    intro e
    rw [List.foldl_cons, ← properties_attempt]
    exact ih (e.attempt call)

theorem sorted_attempts (calls : List (String × Condition)) :
    Entries.Sorted (empty.attempts calls).properties :=
  properties_attempts calls ▸ Entries.sorted_ofList (accepted calls)

theorem accepted_append (before after : List (String × Condition)) :
    accepted (before ++ after) = accepted before ++ accepted after :=
  List.filter_append before after

theorem accepted_cons_of_plain (hkey : isOperatorKey key = false) :
    accepted ((key, condition) :: calls) = (key, condition) :: accepted calls :=
  List.filter_cons_of_pos (by simp [hkey])

theorem latest_iff :
    Latest calls key condition ↔
      ∃ before after, accepted calls = before ++ (key, condition) :: after ∧
        ∀ call ∈ after, call.1 ≠ key := by
  rw [Latest, ← isOperatorKey_eq_false_iff]
  constructor
  · rintro ⟨hkey, before, after, rfl, hafter⟩
    refine ⟨accepted before, accepted after, ?_, fun call hcall => ?_⟩
    · rw [accepted_append, accepted_cons_of_plain hkey]
    · exact hafter call (List.mem_of_mem_filter hcall)
  · rintro ⟨before, after, hcalls, hafter⟩
    obtain ⟨front, back, rfl, -, hback⟩ := List.filter_eq_append_iff.1 hcalls
    obtain ⟨refused, later, rfl, -, hkey, rfl⟩ := List.filter_eq_cons_iff.1 hback
    have hplain : isOperatorKey key = false := by simpa using hkey
    refine ⟨hplain, front ++ refused, later, by simp, fun call hcall heq => ?_⟩
    -- A later call with the same key would have been accepted as well.
    exact hafter call (List.mem_filter.2 ⟨hcall, by simp [heq, hplain]⟩) heq

theorem get?_attempts_eq_some_iff :
    (empty.attempts calls).get? key = some condition ↔ Latest calls key condition := by
  rw [get?, properties_attempts, Entries.lookup_ofList_eq_some_iff, latest_iff]

theorem mem_properties_attempts_iff :
    (key, condition) ∈ (empty.attempts calls).properties ↔ Latest calls key condition := by
  rw [Entries.mem_iff_lookup (sorted_attempts calls)]
  exact get?_attempts_eq_some_iff

theorem size_attempts (calls : List (String × Condition)) :
    (empty.attempts calls).size =
      ((calls.map Prod.fst).filter fun key => !isOperatorKey key).dedup.length := by
  have hkeys : (calls.map Prod.fst).filter (fun key => !isOperatorKey key) =
      Entries.keys (accepted calls) := by
    rw [List.filter_map]
    rfl
  have hperm : (empty.attempts calls).keys.Perm (Entries.keys (accepted calls)).dedup := by
    refine (List.perm_ext_iff_of_nodup ?_ (List.nodup_dedup _)).2 fun key => ?_
    · exact Entries.nodup_keys_of_sorted (sorted_attempts calls)
    · rw [List.mem_dedup, keys, properties_attempts, Entries.mem_keys_ofList]
  rw [hkeys, ← hperm.length_eq, keys, Entries.keys, List.length_map, size]

theorem toJson_of_sorted (hsorted : Entries.Sorted e.properties) :
    e.toJson = .object (e.properties.map fun property => (property.1, property.2.toJson)) := by
  rw [toJson, toPredicate, Predicate.toJson,
    Entries.ofList_of_sorted (sorted_propertiesToJson hsorted), Predicate.propertiesToJson_eq_map]

theorem render_of_sorted (hsorted : Entries.Sorted e.properties) :
    e.render = String.ofList ('\x7b' :: Json.commaSeparated (e.properties.map fun property =>
      Json.quote property.1 ++ ':' :: property.2.toJson.compactChars) ++ ['\x7d']) := by
  have htext : e.render = e.toJson.compact := rfl
  rw [htext, toJson_of_sorted hsorted, Json.compact, Json.compactChars, Json.compactMembers_eq_map,
    List.map_map]
  rfl

theorem attempts_eq_of_latest_iff {first second : List (String × Condition)}
    (h : ∀ key condition, Latest first key condition ↔ Latest second key condition) :
    empty.attempts first = empty.attempts second := by
  have hentries : (empty.attempts first).properties = (empty.attempts second).properties := by
    refine Entries.eq_of_mem_iff (sorted_attempts first) (sorted_attempts second) ?_
    rintro ⟨key, condition⟩
    rw [mem_properties_attempts_iff, mem_properties_attempts_iff, h]
  exact congrArg mk hentries

theorem beq_self (e : Expression) : e == e := e.toPredicate.beq_self

theorem ofJsonWithin_toJson_attempts_iff (hcalls : ∀ call ∈ calls, call.2.Obtainable)
    (limit : Nat) :
    Predicate.ofJsonWithin limit (empty.attempts calls).toJson =
        .ok (empty.attempts calls).toPredicate ↔
      (empty.attempts calls).toPredicate.depth ≤ limit := by
  have hobtainable : (empty.attempts calls).Obtainable := Obtainable.attempts .empty hcalls
  refine ⟨fun hread => ?_, Predicate.ofJsonWithin_toJson hobtainable.wellFormed⟩
  by_contra hdepth
  obtain ⟨path, -, hrefused⟩ :=
    Predicate.ofJsonWithin_toJson_of_lt hobtainable.wellFormed (Nat.lt_of_not_le hdepth)
  cases hread.symm.trans hrefused

end

/-- Any run of insertions leaves the map of its latest calls. A call is refused exactly for
an operator key and then changes nothing; else it returns what the latest call had given its
key. Runs with the same latest calls end in one expression, which is read back as itself. -/
theorem attempts_latest :
    (∀ (before : List (String × Condition)) (key : String) (condition : Condition),
      (∀ x, (empty.attempts before).insert key condition = .error x ↔
        (∃ rest, key = "$" ++ rest) ∧ x = ⟨⟨[.key key]⟩, .reservedKey⟩) ∧
      (∀ x, (empty.attempts before).insert key condition = .error x →
        empty.attempts (before ++ [(key, condition)]) = empty.attempts before) ∧
      ∀ replaced grown, (empty.attempts before).insert key condition = .ok (replaced, grown) →
        empty.attempts (before ++ [(key, condition)]) = grown ∧
          ∀ c, replaced = some c ↔ Latest before key c) ∧
    (∀ calls : List (String × Condition), let e := empty.attempts calls
      (∀ key c, e.get? key = some c ↔ Latest calls key c) ∧
      e.size = ((calls.map Prod.fst).filter fun key => !isOperatorKey key).dedup.length ∧
      (∀ key c, (key, c) ∈ e.properties ↔ Latest calls key c) ∧
      e.properties.Pairwise (fun a b => a.1.toList < b.1.toList) ∧
      e.toJson = .object (e.properties.map fun p => (p.1, p.2.toJson)) ∧
      e.render = String.ofList ('\x7b' :: Json.commaSeparated (e.properties.map fun p =>
        Json.quote p.1 ++ ':' :: p.2.toJson.compactChars) ++ ['\x7d'])) ∧
    (∀ first second : List (String × Condition),
      (∀ key c, Latest first key c ↔ Latest second key c) →
        empty.attempts first = empty.attempts second ∧
          empty.attempts first == empty.attempts second ∧
          (empty.attempts first).render = (empty.attempts second).render) ∧
    ∀ calls : List (String × Condition), (∀ call ∈ calls, call.2.Obtainable) → ∀ limit,
      (Predicate.ofJsonWithin limit (empty.attempts calls).toJson =
          .ok (empty.attempts calls).toPredicate ↔
        (empty.attempts calls).toPredicate.depth ≤ limit) := by
  refine ⟨fun before key condition => ?_, fun calls => ?_, fun first second h => ?_,
    fun calls => ofJsonWithin_toJson_attempts_iff⟩
  · refine ⟨fun x => ?_, fun x herror => ?_, fun replaced grown hok => ?_⟩
    · rw [← isOperatorKey_eq_true_iff]
      cases hkey : isOperatorKey key with
      | true =>
        rw [insert_of_operatorKey hkey]
        simp [NodePath.root, NodePath.atKey, eq_comm]
      | false => simp [insert_of_plain hkey]
    · rw [attempts_concat, attempt_of_error herror]
    · obtain ⟨-, rfl, -⟩ := insert_eq_ok_iff.1 hok
      rw [attempts_concat, attempt_of_ok hok]
      exact ⟨rfl, fun c => get?_attempts_eq_some_iff⟩
  · have hsorted := sorted_attempts calls
    exact ⟨fun _ _ => get?_attempts_eq_some_iff, size_attempts calls,
      fun _ _ => mem_properties_attempts_iff, hsorted.imp String.lt_iff.1, toJson_of_sorted hsorted,
      render_of_sorted hsorted⟩
  · have hsame := attempts_eq_of_latest_iff h
    exact ⟨hsame, hsame ▸ beq_self _, congrArg render hsame⟩

theorem attempts_latest_overwritten :
    let a : Condition := .primitive (.string "a")
    let b : Condition := .oneOf [.string "b", .bool true]
    let before := [("owner", a), ("$in", b), ("kind", a), ("owner", b)]
    let calls := before ++ [("kind", b)]
    let others := [("kind", a), ("kind", b), ("owner", b)]
    ((empty.attempts [("owner", a)]).insert "$in" b = .error ⟨⟨[.key "$in"]⟩, .reservedKey⟩ ∧
      empty.attempts [("owner", a), ("$in", b)] = empty.attempts [("owner", a)]) ∧
    ((empty.attempts before).insert "kind" b = .ok (some a, ⟨[("kind", b), ("owner", b)]⟩) ∧
      Latest before "kind" a) ∧
    ((∀ key c, Latest calls key c ↔ Latest others key c) ∧
      empty.attempts calls = empty.attempts others) ∧
    (∀ call ∈ calls, call.2.Obtainable) ∧
      Predicate.ofJsonWithin 1 (empty.attempts calls).toJson =
        .ok (empty.attempts calls).toPredicate := by
  intro a b before calls others
  obtain ⟨hcalls, -, hsame, hread⟩ := attempts_latest
  have hrefused := ((hcalls [("owner", a)] "$in" b).1 _).2 ⟨⟨"in", rfl⟩, rfl⟩
  have hinsert : (empty.attempts before).insert "kind" b =
      .ok (some a, ⟨[("kind", b), ("owner", b)]⟩) := by
    simp only [before, attempts, attempt, insert, empty, get?, Entries.insert, isOperatorKey,
      operatorMark, List.foldl_cons, List.foldl_nil, List.lookup_cons, List.lookup_nil,
      List.head?_cons, String.reduceToList, Char.reduceBEq, Option.some_beq_some, String.reduceBEq,
      String.reduceLT, String.reduceEq, String.lt_irrefl, Bool.false_eq_true, ↓reduceIte, BEq.rfl]
  have hgrown := (hcalls before "kind" b).2.2 _ _ hinsert
  have hothers : empty.attempts others = ⟨[("kind", b), ("owner", b)]⟩ := by
    simp only [others, attempts, attempt, insert, empty, Entries.insert, isOperatorKey,
      operatorMark, List.foldl_cons, List.foldl_nil, List.head?_cons, String.reduceToList,
      Char.reduceBEq, Option.some_beq_some, String.reduceLT, String.reduceEq, String.lt_irrefl,
      Bool.false_eq_true, ↓reduceIte]
  have hlatest : ∀ key c, Latest calls key c ↔ Latest others key c := by
    intro key c
    rw [← get?_attempts_eq_some_iff, ← get?_attempts_eq_some_iff, hgrown.1, hothers]
  have hobtainable : ∀ call ∈ calls, call.2.Obtainable := by
    have ha : a.Obtainable := .primitive _
    have hb : b.Obtainable := .oneOf _
    simp [calls, before, ha, hb]
  have hdepth : (empty.attempts calls).toPredicate.depth ≤ 1 := by
    rw [hgrown.1]
    decide
  exact ⟨⟨hrefused, (hcalls _ "$in" b).2.1 _ hrefused⟩, ⟨hinsert, (hgrown.2 a).1 rfl⟩,
    ⟨hlatest, (hsame calls others hlatest).1⟩, hobtainable, (hread calls hobtainable 1).2 hdepth⟩

end ConfiguredPredicates.Expression
