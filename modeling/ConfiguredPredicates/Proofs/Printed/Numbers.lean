import ConfiguredPredicates.Json.Printer
import ConfiguredPredicates.Json.Text.NumberLiteral
import ConfiguredPredicates.Proofs.Digits

/-!
Printed whole numbers. The digits of a whole number are all gathered, since the number
they stand for is below the bound of a significand, so the number is read from its text
when nothing behind it could go on with the literal.
-/

namespace ConfiguredPredicates.Json.Text.NumberLiteral

open Decimal (natChars isDigit_of_mem_natChars exists_natChars_eq_cons
  eq_zero_of_head?_natChars)

theorem le_ofDigitChars (n : Nat) (ds : List Char) : n ≤ Nat.ofDigitChars 10 ds n := by
  induction ds generalizing n with
  | nil => simp
  | cons d ds ih =>
    rw [Nat.ofDigitChars_cons]
    have := ih (10 * n + (d.toNat - '0'.toNat))
    omega

theorem gather_eq_of_lt {n : Nat} {ds : List Char}
    (h : Nat.ofDigitChars 10 ds n < 0x10000000000000000) :
    gather n ds = (Nat.ofDigitChars 10 ds n, []) := by
  induction ds generalizing n with
  | nil => simp [gather]
  | cons d ds ih =>
    rw [Nat.ofDigitChars_cons] at h ⊢
    have hnext : n * 10 + digitValue d = 10 * n + (d.toNat - '0'.toNat) := by
      rw [digitValue, Nat.mul_comm]
      rfl
    have hle := le_ofDigitChars (10 * n + (d.toNat - '0'.toNat)) ds
    rw [gather, hnext, if_pos (by omega), ih h]

theorem gather_natChars {n : Nat} (h : n < 0x10000000000000000) :
    gather 0 (natChars n) = (n, []) := by
  have hvalue : Nat.ofDigitChars 10 (natChars n) 0 = n :=
    Nat.ofDigitChars_toDigits (by decide) (by decide)
  rw [← hvalue] at h
  rw [gather_eq_of_lt h, hvalue]

/-- Nothing at the beginning of a text goes on with a number. -/
def Ends (rest : List Char) : Prop :=
  ∀ c ∈ rest.head?, c.isDigit = false ∧ c ≠ '.' ∧ c ≠ 'e' ∧ c ≠ 'E'

theorem ends_nil : Ends [] := by simp [Ends]

section
variable {rest : List Char} (hrest : Ends rest)
include hrest

theorem wholeDigits_natChars (n : Nat) :
    wholeDigits (natChars n ++ rest) = .ok (natChars n, rest) := by
  have hspan : takeDigits (natChars n ++ rest) = (natChars n, rest) :=
    Text.span_append isDigit_of_mem_natChars fun c hc => (hrest c hc).1
  have hsome : someDigits (natChars n ++ rest) = .ok (natChars n, rest) := by
    rw [someDigits, hspan]
    obtain ⟨d, ds, hds, -⟩ := exists_natChars_eq_cons n
    rw [hds]
  rw [wholeDigits, hsome]
  simp only [bind, Except.bind]
  split
  · next d ds hds =>
    have hzero : n = 0 := eq_zero_of_head?_natChars (by rw [hds]; rfl)
    subst hzero
    cases hds
  · rfl

theorem fractionDigits_of_ends : fractionDigits rest = .ok (none, rest) := by
  unfold fractionDigits
  split
  · next cs => exact absurd rfl (hrest '.' rfl).2.1
  · rfl

theorem exponentPart_of_ends : exponentPart rest = .ok (none, rest) := by
  cases rest with
  | nil => rfl
  | cons c cs =>
    obtain ⟨-, -, hlower, hupper⟩ := hrest c rfl
    simp [exponentPart, hlower, hupper]

theorem readUnsigned_natChars {negative : Bool} {n : Nat} {number : Number}
    (hnumber : wholeNumber? negative (natChars n) = some number) :
    readUnsigned negative (natChars n ++ rest) = .ok (number, rest) := by
  simp [readUnsigned, wholeDigits_natChars hrest, fractionDigits_of_ends hrest,
    exponentPart_of_ends hrest, number?, hnumber, bind, Except.bind]

end

theorem wholeNumber?_natChars {negative : Bool} {n : Nat} {number : Number}
    (hn : n < 0x10000000000000000) (hzero : negative = true → n ≠ 0)
    (hnumber : Number.ofInt? (if negative then -(n : Int) else n) = some number) :
    wholeNumber? negative (natChars n) = some number := by
  have hsign : (negative && n == 0) = false := by
    cases negative with
    | false => rfl
    | true => simpa using hzero rfl
  simp [wholeNumber?, gather_natChars hn, hsign, hnumber]

theorem exists_chars_eq_cons (n : WholeNumber) :
    ∃ c cs, (Number.whole n).chars = c :: cs ∧ (c = '-' ∨ c.isDigit = true) := by
  rw [Number.chars, Decimal.intChars]
  split
  · exact ⟨_, _, rfl, .inl rfl⟩
  · obtain ⟨d, ds, hds, hdigit⟩ := exists_natChars_eq_cons n.value.natAbs
    exact ⟨d, ds, hds, .inr hdigit⟩

theorem read_natChars (n : Nat) (rest : List Char) :
    read (natChars n ++ rest) = readUnsigned false (natChars n ++ rest) := by
  obtain ⟨d, ds, hds, hdigit⟩ := exists_natChars_eq_cons n
  rw [hds, List.cons_append, read]
  rintro cs ⟨⟩
  cases hdigit

/-- A printed whole number is read as itself. -/
theorem read_chars (n : WholeNumber) {rest : List Char} (hrest : Ends rest) :
    read ((Number.whole n).chars ++ rest) = .ok (.whole n, rest) := by
  have hlower := n.lower
  have hupper := n.upper
  have hread := Number.ofInt?_value n
  rw [Number.chars, Decimal.intChars]
  split
  · next hneg =>
    refine readUnsigned_natChars hrest (wholeNumber?_natChars (by omega) (by omega) ?_)
    have hvalue : -(n.value.natAbs : Int) = n.value := by omega
    rwa [if_pos rfl, hvalue]
  · next hneg =>
    rw [read_natChars]
    refine readUnsigned_natChars hrest (wholeNumber?_natChars (by omega) (by simp) ?_)
    have hvalue : (n.value.natAbs : Int) = n.value := by omega
    rwa [if_neg (by simp), hvalue]

end ConfiguredPredicates.Json.Text.NumberLiteral
