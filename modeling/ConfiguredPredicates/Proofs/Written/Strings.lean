import ConfiguredPredicates.Json.Text.StringLiteral

/-!
Readers that look no further than they take. What a literal or a string takes off a text
depends on nothing behind it: the same beginning is taken, with the same value, from
before every other rest.
-/

namespace ConfiguredPredicates.Json.Text

/-- A reader takes a beginning of the text, and the same before all that may follow it. -/
def Local (follows : List Char → Prop) (read : Reader α) : Prop :=
  ∀ cs a rest, read cs = .ok (a, rest) → ∃ front, cs = front ++ rest ∧
    ∀ more, follows more → read (front ++ more) = .ok (a, more)

section
variable {α β : Type} {follows : List Char → Prop}

theorem local_ok (a : α) : Local follows fun cs => .ok (a, cs) := by
  rintro cs _ _ ⟨⟩
  exact ⟨[], rfl, fun _ _ => rfl⟩

theorem local_error (f : Fault) : Local follows (fun _ => .error f : Reader α) := by
  rintro cs _ _ ⟨⟩

theorem Local.mono {weaker : List Char → Prop} {read : Reader α} (h : Local weaker read)
    (hweaker : ∀ more, follows more → weaker more) : Local follows read := by
  intro cs a rest hread
  obtain ⟨front, hcs, hfront⟩ := h cs a rest hread
  exact ⟨front, hcs, fun more hmore => hfront more (hweaker more hmore)⟩

/-- Two readers in turn, where what the second takes may follow what the first takes. -/
theorem Local.bind {between : List Char → Prop} {first : Reader α} {read : Reader β}
    (further : α → Reader β) (hfirst : Local between first)
    (hbetween : ∀ a cs b rest, further a cs = .ok (b, rest) → follows rest → between cs)
    (hfurther : ∀ a, Local follows (further a))
    (hread : ∀ cs, read cs = first cs >>= fun result => further result.1 result.2) :
    Local follows read := by
  intro cs b rest h
  rw [hread] at h
  obtain ⟨⟨a, middle⟩, hbefore, hbehind⟩ := bind_eq_ok.1 h
  obtain ⟨front, rfl, hfront⟩ := hfirst cs a middle hbefore
  obtain ⟨back, rfl, hback⟩ := hfurther a middle b rest hbehind
  refine ⟨front ++ back, (List.append_assoc ..).symm, fun more hmore => ?_⟩
  have hmiddle := hback more hmore
  rw [hread, List.append_assoc, hfront _ (hbetween a _ b more hmiddle hmore)]
  exact hmiddle

theorem Local.map (f : α → β) {first : Reader α} {read : Reader β} (hfirst : Local follows first)
    (hread : ∀ cs, read cs = first cs >>= fun result => .ok (f result.1, result.2)) :
    Local follows read := by
  refine hfirst.bind (fun a rest => .ok (f a, rest)) ?_ (fun a => local_ok (f a)) hread
  rintro a cs _ _ ⟨⟩ hrest
  exact hrest

theorem Local.cons (read : Reader α) {inner : Reader α} {c : Char} (hinner : Local follows inner)
    (hread : ∀ cs, read (c :: cs) = inner cs) {cs rest : List Char} {a : α}
    (h : read (c :: cs) = .ok (a, rest)) : ∃ front, c :: cs = front ++ rest ∧
      ∀ more, follows more → read (front ++ more) = .ok (a, more) := by
  obtain ⟨front, rfl, hfront⟩ := hinner cs a rest (hread cs ▸ h)
  exact ⟨c :: front, rfl, fun more hmore => (hread _).trans (hfront more hmore)⟩

theorem local_literal (value : α) (letters : List Char) :
    Local follows (literal value letters) := by
  induction letters with
  | nil => exact local_ok value
  | cons letter letters ih =>
    intro cs a rest h
    cases cs with
    | nil => cases h
    | cons c cs =>
      by_cases hc : c = letter
      · exact ih.cons _ (fun _ => if_pos hc) h
      · rw [literal, if_neg hc] at h
        cases h

end

namespace StringLiteral

variable {follows : List Char → Prop}

theorem fourHex?_eq_some {cs rest : List Char} {unit : Nat} (h : fourHex? cs = some (unit, rest)) :
    ∃ a b c d, cs = a :: b :: c :: d :: rest ∧
      ∀ more, fourHex? (a :: b :: c :: d :: more) = some (unit, more) := by
  unfold fourHex? at h
  split at h
  case h_2 => cases h
  next a b c d rest' =>
  simp only [Option.bind_eq_bind, Option.bind_eq_some_iff, Option.some.injEq, Prod.mk.injEq] at h
  obtain ⟨_, ha, _, hb, _, hc, _, hd, rfl, rfl⟩ := h
  exact ⟨a, b, c, d, rfl, fun more => by simp [fourHex?, ha, hb, hc, hd]⟩

theorem local_codeUnit : Local follows codeUnit := by
  intro cs unit rest h
  unfold codeUnit at h
  split at h
  · cases h
  next hsize =>
  split at h
  case h_2 => cases h
  next hhex =>
  cases h
  obtain ⟨a, b, c, d, rfl, hfour⟩ := fourHex?_eq_some hhex
  refine ⟨[a, b, c, d], rfl, fun more _ => ?_⟩
  rw [codeUnit, List.cons_append, List.cons_append, List.cons_append, List.cons_append,
    List.nil_append, hfour]
  exact if_neg hsize

theorem local_lowHalf : Local follows lowHalf := by
  have hunit (unit : Nat) : Local follows fun rest =>
      if isLowHalf unit then .ok (unit, rest) else .error .malformed := by
    by_cases hlow : isLowHalf unit
    · simpa only [hlow, if_true] using local_ok unit
    · simpa [hlow] using local_error _
  intro cs unit rest h
  unfold lowHalf at h
  split at h
  case h_3 cs =>
    obtain ⟨front, rfl, hfront⟩ :=
      local_codeUnit.bind _ (fun _ _ _ _ _ _ => trivial) hunit (fun _ => rfl) cs unit rest h
    exact ⟨'\\' :: 'u' :: front, rfl, hfront⟩
  all_goals cases h

theorem local_escapedUnit : Local follows escapedUnit := by
  have hpair (unit : Nat) : Local follows fun rest => lowHalf rest >>= fun result =>
      .ok (Char.ofNat (0x10000 + (unit - 0xD800) * 0x400 + (result.1 - 0xDC00)), result.2) :=
    local_lowHalf.map (fun low => Char.ofNat (0x10000 + (unit - 0xD800) * 0x400 + (low - 0xDC00)))
      fun _ => rfl
  refine local_codeUnit.bind (fun unit rest => if isLowHalf unit then .error .malformed
    else if isHighHalf unit then lowHalf rest >>= fun result =>
      .ok (Char.ofNat (0x10000 + (unit - 0xD800) * 0x400 + (result.1 - 0xDC00)), result.2)
    else .ok (Char.ofNat unit, rest)) (fun _ _ _ _ _ _ => trivial) (fun unit => ?_)
    fun cs => by simp only [escapedUnit]
  by_cases hlow : isLowHalf unit
  · simpa only [hlow, if_true] using local_error _
  by_cases hhigh : isHighHalf unit
  · simpa [hlow, hhigh] using hpair unit
  · simpa [hlow, hhigh] using local_ok _

theorem local_escaped : Local follows escaped := by
  intro cs c rest h
  cases cs with
  | nil => cases h
  | cons letter cs =>
    by_cases hu : letter = 'u'
    · subst hu
      exact local_escapedUnit.cons _ (fun _ => rfl) h
    · have hread (cs : List Char) : escaped (letter :: cs) =
          ((escapedLetter? letter).elim (.error .malformed) fun meaning => .ok (meaning, cs)) := by
        rw [escaped]
        · cases escapedLetter? letter <;> rfl
        · exact hu
      cases hletter : escapedLetter? letter with
      | none => simp [hread, hletter] at h
      | some meaning => exact (local_ok meaning).cons _ (fun cs => by rw [hread, hletter]; rfl) h

/-- What was taken is enough fuel for itself. -/
theorem exists_front_of_body {fuel : Nat} {cs rest chars : List Char}
    (h : body escaped fuel cs = .ok (chars, rest)) : ∃ front, cs = front ++ rest ∧
      ∀ more fuel, front.length ≤ fuel → body escaped fuel (front ++ more) = .ok (chars, more) := by
  induction fuel generalizing cs rest chars with
  | zero => cases h
  | succ fuel ih =>
    cases cs with
    | nil => cases h
    | cons c cs =>
      rw [body] at h
      by_cases hquote : c = '"'
      · rw [if_pos hquote] at h
        cases h
        refine ⟨[c], rfl, fun more fuel hfuel => ?_⟩
        obtain ⟨fuel, rfl⟩ := Nat.exists_eq_add_of_le' hfuel
        exact if_pos hquote
      by_cases hbackslash : c = '\\'
      · rw [if_neg hquote, if_pos hbackslash] at h
        obtain ⟨⟨first, middle⟩, hfirst, h⟩ := bind_eq_ok.1 h
        obtain ⟨⟨others, _⟩, hothers, h⟩ := bind_eq_ok.1 h
        cases h
        have hlocal : Local (fun _ => True) escaped := local_escaped
        obtain ⟨letters, rfl, hletters⟩ := hlocal _ _ _ hfirst
        obtain ⟨front, rfl, hfront⟩ := ih hothers
        refine ⟨c :: (letters ++ front), by simp, fun more fuel hfuel => ?_⟩
        rw [List.length_cons, List.length_append] at hfuel
        obtain ⟨fuel, rfl⟩ := Nat.exists_eq_add_of_le' (Nat.le_of_add_left_le hfuel)
        rw [List.cons_append, List.append_assoc, body, if_neg hquote, if_pos hbackslash,
          hletters _ trivial]
        change (body escaped fuel (front ++ more) >>= _) = _
        rw [hfront more fuel (by omega)]
        rfl
      · rw [if_neg hquote, if_neg hbackslash] at h
        by_cases hcontrol : c.toNat < 32
        · rw [if_pos hcontrol] at h
          cases h
        rw [if_neg hcontrol] at h
        obtain ⟨⟨others, _⟩, hothers, h⟩ := bind_eq_ok.1 h
        cases h
        obtain ⟨front, rfl, hfront⟩ := ih hothers
        refine ⟨c :: front, rfl, fun more fuel hfuel => ?_⟩
        obtain ⟨fuel, rfl⟩ := Nat.exists_eq_add_of_le' (Nat.le_of_add_left_le hfuel)
        rw [List.cons_append, body, if_neg hquote, if_neg hbackslash, if_neg hcontrol,
          hfront more fuel (Nat.le_of_succ_le_succ hfuel)]
        rfl

theorem local_read : Local follows read := by
  intro cs s rest h
  obtain ⟨⟨chars, _⟩, hbody, hs⟩ := bind_eq_ok.1 h
  cases hs
  obtain ⟨front, rfl, hfront⟩ := exists_front_of_body hbody
  refine ⟨front, rfl, fun more _ => ?_⟩
  rw [read, hfront more _ (by simp; omega)]
  rfl

end StringLiteral

end ConfiguredPredicates.Json.Text
