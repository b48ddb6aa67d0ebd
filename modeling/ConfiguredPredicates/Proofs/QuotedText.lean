import ConfiguredPredicates.QuotedText
import ConfiguredPredicates.Proofs.Digits
import Mathlib.Tactic.SplitIfs

/-!
Quoted text tells what was quoted. A character is written as itself, by a letter or by its
code point, and none of these begins another, so a text has one reading from the left.
It ends at the first quotation mark that is not behind a backslash, whatever comes after.
-/

namespace ConfiguredPredicates.Text

def letterEscapes : List (Char × Char) :=
  [('"', '"'), ('\\', '\\'), ('\n', 'n'), ('\r', 'r'), ('\t', 't'), ('\x00', '0')]

inductive Encoding (c : Char) : List Char → Prop
  | plain : c ≠ '\\' → c ≠ '"' → Encoding c [c]
  | letter {l : Char} : (c, l) ∈ letterEscapes → Encoding c ['\\', l]
  | codePoint : Encoding c (codePoint c)

theorem encoding_encodeChar (c : Char) : Encoding c (encodeChar c) := by
  unfold encodeChar
  split_ifs with hquote hbackslash
  -- The first six characters are written by a letter.
  iterate 6
    · subst c
      exact .letter (by decide)
  · exact .codePoint
  · exact .plain hbackslash hquote

theorem letterEscapes_inj :
    ∀ a ∈ letterEscapes, ∀ b ∈ letterEscapes, a.2 = b.2 → a.1 = b.1 := by
  decide

theorem ne_of_mem_letterEscapes : ∀ a ∈ letterEscapes, a.2 ≠ 'u' := by decide

theorem codePoint_append_inj {c d : Char} {x y : List Char}
    (h : codePoint c ++ x = codePoint d ++ y) : c = d ∧ x = y := by
  have hdigits : Nat.toDigits 16 c.toNat ++ '\x7d' :: x =
      Nat.toDigits 16 d.toNat ++ '\x7d' :: y := by
    simpa [codePoint] using h
  obtain ⟨hcode, hrest⟩ := toDigits_append_inj (by decide) (by decide) (by decide) hdigits
  exact ⟨Char.toNat_inj.1 hcode, hrest⟩

/-- No character is written with the beginning of what another is written with. -/
theorem encodeChar_append_inj {c d : Char} {x y : List Char}
    (h : encodeChar c ++ x = encodeChar d ++ y) : c = d ∧ x = y := by
  have hc := encoding_encodeChar c
  have hd := encoding_encodeChar d
  generalize encodeChar c = s at h hc
  generalize encodeChar d = t at h hd
  cases hc with
  | plain hbackslash _ =>
    cases hd with
    | plain _ _ => exact List.cons.inj h
    | letter _ => exact absurd (List.cons.inj h).1 hbackslash
    | codePoint => exact absurd (List.cons.inj h).1 hbackslash
  | letter hc =>
    cases hd with
    | plain hbackslash _ => exact absurd (List.cons.inj h).1.symm hbackslash
    | letter hd =>
      obtain ⟨hletter, hrest⟩ := List.cons.inj (List.cons.inj h).2
      exact ⟨letterEscapes_inj _ hc _ hd hletter, hrest⟩
    | codePoint =>
      exact absurd (List.cons.inj (List.cons.inj h).2).1 (ne_of_mem_letterEscapes _ hc)
  | codePoint =>
    cases hd with
    | plain hbackslash _ => exact absurd (List.cons.inj h).1.symm hbackslash
    | letter hd =>
      exact absurd (List.cons.inj (List.cons.inj h).2).1.symm (ne_of_mem_letterEscapes _ hd)
    | codePoint => exact codePoint_append_inj h

theorem head?_encodeChar_append_ne (c : Char) (x : List Char) :
    (encodeChar c ++ x).head? ≠ some '"' := by
  have hc := encoding_encodeChar c
  generalize encodeChar c = s at hc
  cases hc with
  | plain _ hquote => simpa using hquote
  | letter => simp
  | codePoint => simp [codePoint]

theorem quoted_append_inj {s t x y : List Char} (h : quoted s ++ x = quoted t ++ y) :
    s = t ∧ x = y := by
  have hinside : s.flatMap encodeChar ++ '"' :: x = t.flatMap encodeChar ++ '"' :: y := by
    simpa [quoted] using h
  clear h
  induction s generalizing t with
  | nil =>
    cases t with
    | nil => exact ⟨rfl, List.tail_eq_of_cons_eq hinside⟩
    | cons d t =>
      rw [List.flatMap_cons, List.append_assoc] at hinside
      exact absurd (congrArg List.head? hinside).symm (head?_encodeChar_append_ne d _)
  | cons c s ih =>
    rw [List.flatMap_cons, List.append_assoc] at hinside
    cases t with
    | nil => exact absurd (congrArg List.head? hinside) (head?_encodeChar_append_ne c _)
    | cons d t =>
      rw [List.flatMap_cons, List.append_assoc] at hinside
      obtain ⟨rfl, hrest⟩ := encodeChar_append_inj hinside
      obtain ⟨rfl, rfl⟩ := ih hrest
      exact ⟨rfl, rfl⟩

end ConfiguredPredicates.Text
