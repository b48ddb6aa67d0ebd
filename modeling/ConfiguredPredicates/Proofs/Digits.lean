import ConfiguredPredicates.Decimal
import Mathlib.Data.List.TakeDrop
import Mathlib.Data.List.TakeWhile

/-!
Runs of one kind of character, digits above all. A beginning of a kind is the longest
when nothing of the kind comes behind it, so a text is cut in one way only where the kind
ends. The digits of a number tell it, and none but zero begins with a zero.
-/

namespace ConfiguredPredicates

namespace Text

section Runs
variable {α : Type} {p : α → Bool} {front rest cs : List α}

theorem span_append (hfront : ∀ c ∈ front, p c = true) (hrest : ∀ c ∈ rest.head?, p c = false) :
    (front ++ rest).span p = (front, rest) := by
  have hstop : rest.takeWhile p = [] ∧ rest.dropWhile p = rest := by
    cases rest with
    | nil => exact ⟨rfl, rfl⟩
    | cons c cs => simp [hrest c rfl]
  rw [List.span_eq_takeWhile_dropWhile, List.takeWhile_append_of_pos hfront,
    List.dropWhile_append_of_pos hfront, hstop.1, hstop.2, List.append_nil]

theorem eq_append_of_span (h : cs.span p = (front, rest)) :
    cs = front ++ rest ∧ ∀ c ∈ front, p c = true := by
  rw [List.span_eq_takeWhile_dropWhile] at h
  obtain ⟨rfl, rfl⟩ := Prod.mk.inj h
  exact ⟨List.takeWhile_append_dropWhile.symm, fun _ => List.mem_takeWhile_imp⟩

/-- A text is cut in one way only where a kind of character ends. -/
theorem append_inj_of_span {front' rest' : List α} (hfront : ∀ c ∈ front, p c = true)
    (hfront' : ∀ c ∈ front', p c = true) (hrest : ∀ c ∈ rest.head?, p c = false)
    (hrest' : ∀ c ∈ rest'.head?, p c = false) (h : front ++ rest = front' ++ rest') :
    front = front' ∧ rest = rest' := by
  have hspan := span_append hfront hrest
  rw [h, span_append hfront' hrest'] at hspan
  exact Prod.mk.inj hspan.symm

end Runs

section Digits
variable {b m n : Nat}

theorem digitChar_inj : ∀ m < 16, ∀ n < 16, Nat.digitChar m = Nat.digitChar n → m = n := by
  decide

theorem toDigits_eq_append_last (hb : 1 < b) (n : Nat) :
    Nat.toDigits b n =
      (if n < b then [] else Nat.toDigits b (n / b)) ++ [Nat.digitChar (n % b)] := by
  split
  · next hlt => rw [Nat.toDigits_of_lt_base hlt, Nat.mod_eq_of_lt hlt, List.nil_append]
  · next hge => exact Nat.toDigits_of_base_le hb (Nat.not_lt.1 hge)

theorem exists_of_mem_toDigits {c : Char} (hb : 1 < b) (hc : c ∈ Nat.toDigits b n) :
    ∃ d < b, c = Nat.digitChar d := by
  induction n using Nat.strongRecOn with
  | ind n ih =>
    rw [toDigits_eq_append_last hb, List.mem_append, List.mem_singleton] at hc
    rcases hc with hc | hc
    · split at hc
      · cases hc
      · exact ih (n / b) (Nat.div_lt_self (by omega) hb) hc
    · exact ⟨n % b, Nat.mod_lt n (by omega), hc⟩

theorem toDigits_inj (hb : 1 < b) (hhex : b ≤ 16) (h : Nat.toDigits b m = Nat.toDigits b n) :
    m = n := by
  induction m using Nat.strongRecOn generalizing n with
  | ind m ih =>
    rw [toDigits_eq_append_last hb m, toDigits_eq_append_last hb n] at h
    obtain ⟨hfront, hlast⟩ := List.append_inj' h rfl
    have hm : m % b < b := Nat.mod_lt m (by omega)
    have hn : n % b < b := Nat.mod_lt n (by omega)
    have hmod : m % b = n % b :=
      digitChar_inj _ (by omega) _ (by omega) (List.singleton_inj.1 hlast)
    have hdiv : m / b = n / b := by
      split at hfront <;> split at hfront
      · rw [Nat.div_eq_of_lt ‹m < b›, Nat.div_eq_of_lt ‹n < b›]
      · exact absurd hfront.symm Nat.toDigits_ne_nil
      · exact absurd hfront Nat.toDigits_ne_nil
      · exact ih (m / b) (Nat.div_lt_self (by omega) hb) hfront
    rw [← Nat.div_add_mod m b, ← Nat.div_add_mod n b, hdiv, hmod]

/-- Digits before a character that is none are found again in a text. -/
theorem toDigits_append_inj {stop : Char} {x y : List Char} (hb : 1 < b) (hhex : b ≤ 16)
    (hstop : ∀ d < 16, stop ≠ Nat.digitChar d)
    (h : Nat.toDigits b m ++ stop :: x = Nat.toDigits b n ++ stop :: y) : m = n ∧ x = y := by
  have hdigits : ∀ k, ∀ c ∈ Nat.toDigits b k, (c != stop) = true := by
    intro k c hc
    obtain ⟨d, hd, rfl⟩ := exists_of_mem_toDigits hb hc
    exact bne_iff_ne.2 (hstop d (by omega)).symm
  obtain ⟨hsame, hrest⟩ := append_inj_of_span (hdigits m) (hdigits n) (by simp) (by simp) h
  exact ⟨toDigits_inj hb hhex hsame, List.tail_eq_of_cons_eq hrest⟩

end Digits

end Text

namespace Decimal

theorem isDigit_of_mem_natChars {n : Nat} : ∀ c ∈ natChars n, c.isDigit = true :=
  fun _ => Nat.isDigit_of_mem_toDigits (by decide) (by decide)

theorem exists_natChars_eq_cons (n : Nat) :
    ∃ d ds, natChars n = d :: ds ∧ d.isDigit = true := by
  obtain ⟨d, ds, hds⟩ := List.exists_cons_of_ne_nil (Nat.toDigits_ne_nil : natChars n ≠ [])
  exact ⟨d, ds, hds, isDigit_of_mem_natChars d (hds ▸ List.mem_cons_self)⟩

theorem eq_zero_of_head?_natChars {n : Nat} (h : (natChars n).head? = some '0') : n = 0 := by
  induction n using Nat.strongRecOn with
  | ind n ih =>
    rcases Nat.lt_or_ge n 10 with hlt | hge
    · have hdigit : ∀ d < 10, Nat.digitChar d = '0' → d = 0 := by decide
      rw [natChars, Nat.toDigits_of_lt_base hlt] at h
      exact hdigit n hlt (by simpa using h)
    · obtain ⟨d, ds, hfront, -⟩ := exists_natChars_eq_cons (n / 10)
      rw [natChars, Nat.toDigits_of_base_le (by decide) hge, ← natChars, hfront] at h
      have := ih (n / 10) (by omega) (by rw [hfront]; exact h)
      omega

end Decimal

end ConfiguredPredicates
