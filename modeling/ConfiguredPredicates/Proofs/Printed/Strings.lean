import ConfiguredPredicates.Json.Printer
import ConfiguredPredicates.Json.Text.StringLiteral
import Mathlib.Tactic.SplitIfs

/-!
Printed strings. The text of a character in a literal is read as that character, be it
escaped by a letter, by its number or not at all, so every string is read from its
literal and the text behind the closing quotation mark is left.
-/

namespace ConfiguredPredicates.Json.Text.StringLiteral

theorem hexValue?_hexDigit : ∀ n < 16, hexValue? (hexDigit n) = some n := by decide

theorem utf8Size_hexDigit : ∀ n < 16, (hexDigit n).utf8Size = 1 := by decide

theorem codeUnit_of_lt {n : Nat} (hn : n < 256) (rest : List Char) :
    codeUnit ('0' :: '0' :: hexDigit (n / 16) :: hexDigit (n % 16) :: rest) = .ok (n, rest) := by
  have hhigh : n / 16 < 16 := by omega
  have hlow : n % 16 < 16 := by omega
  have hzero : hexValue? '0' = some 0 := by decide
  have hsize : ¬ (String.ofList
      ['0', '0', hexDigit (n / 16), hexDigit (n % 16)]).utf8ByteSize < 4 := by
    have hone : "0".utf8ByteSize = 1 := by decide
    simp [hone, utf8Size_hexDigit _ hhigh, utf8Size_hexDigit _ hlow]
  have hvalue : ((0 * 16 + 0) * 16 + n / 16) * 16 + n % 16 = n := by omega
  simp only [codeUnit, List.take, if_neg hsize, fourHex?, hzero, hexValue?_hexDigit _ hhigh,
    hexValue?_hexDigit _ hlow, Option.bind_eq_bind, Option.bind_some, hvalue]

theorem escaped_of_lt {c : Char} (hc : c.toNat < 32) (rest : List Char) :
    escaped ('u' :: '0' :: '0' :: hexDigit (c.toNat / 16) :: hexDigit (c.toNat % 16) :: rest) =
      .ok (c, rest) := by
  have hlow : isLowHalf c.toNat = false := by
    simp [isLowHalf]
    omega
  have hhigh : isHighHalf c.toNat = false := by
    simp [isHighHalf]
    omega
  have hlt : c.toNat < 256 := by omega
  simp [escaped, escapedUnit, codeUnit_of_lt hlt, hlow, hhigh, bind, Except.bind]

/-- What is printed for a character is read as that character, before all that follows. -/
theorem body_escape (c : Char) (fuel : Nat) (rest : List Char) :
    body escaped (fuel + 1) (escape c ++ rest) = (do
      let (others, rest) ← body escaped fuel rest
      .ok (c :: others, rest)) := by
  unfold escape
  split_ifs with hquote hbackslash _ _ _ _ _ hcontrol
  -- The first seven characters are escaped by a letter.
  iterate 7
    · subst c
      rfl
  · simp [body, escaped_of_lt hcontrol, bind, Except.bind]
  · simp [body, hquote, hbackslash, hcontrol, bind, Except.bind]

theorem length_le_length_flatMap_escape (cs : List Char) :
    cs.length ≤ (cs.flatMap escape).length := by
  induction cs with
  | nil => simp
  | cons c cs ih =>
    have hpos : 0 < (escape c).length := by
      unfold escape
      split_ifs <;> simp
    rw [List.flatMap_cons, List.length_append, List.length_cons]
    omega

theorem body_flatMap_escape (cs rest : List Char) {fuel : Nat} (hfuel : cs.length < fuel) :
    body escaped fuel (cs.flatMap escape ++ '"' :: rest) = .ok (cs, rest) := by
  induction cs generalizing fuel with
  | nil =>
    obtain _ | fuel := fuel
    · cases hfuel
    · rfl
  | cons c cs ih =>
    obtain _ | fuel := fuel
    · cases hfuel
    · have hrest := ih (Nat.lt_of_succ_lt_succ hfuel)
      rw [List.flatMap_cons, List.append_assoc, body_escape, hrest]
      rfl

theorem read_flatMap_escape (s : String) (rest : List Char) :
    read (s.toList.flatMap escape ++ '"' :: rest) = .ok (s, rest) := by
  have hlength := length_le_length_flatMap_escape s.toList
  have hfuel : s.toList.length < (s.toList.flatMap escape ++ '"' :: rest).length + 1 := by
    rw [List.length_append, List.length_cons]
    omega
  rw [read, body_flatMap_escape s.toList rest hfuel]
  simp [bind, Except.bind]

end ConfiguredPredicates.Json.Text.StringLiteral
