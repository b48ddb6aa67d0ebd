import ConfiguredPredicates.Proofs.Printed.Numbers
import ConfiguredPredicates.Proofs.Written.Strings

/-!
Number literals are read where they stand: the same number is taken from before every rest
that does not go on with it. The parts of a literal are told apart by their first
characters, so each part is followed by what may follow it.
-/

namespace ConfiguredPredicates.Json.Text

namespace NumberLiteral

/-- Nothing at the beginning of a text goes on with the digits of a number. -/
def EndsDigits (rest : List Char) : Prop :=
  ∀ c ∈ rest.head?, c.isDigit = false

/-- Nothing at the beginning of a text goes on with a number but an exponent. -/
def EndsFraction (rest : List Char) : Prop :=
  ∀ c ∈ rest.head?, c.isDigit = false ∧ c ≠ '.'

theorem EndsFraction.endsDigits {rest : List Char} (h : EndsFraction rest) : EndsDigits rest :=
  fun c hc => (h c hc).1

theorem someDigits_eq_ok_iff {cs ds rest : List Char} :
    someDigits cs = .ok (ds, rest) ↔ takeDigits cs = (ds, rest) ∧ ds ≠ [] := by
  rw [someDigits]
  obtain ⟨front, back⟩ := takeDigits cs
  cases front with
  | nil =>
    have hnone : ∀ f : Fault,
        .error f = Except.ok (ds, rest) ↔ ([], back) = (ds, rest) ∧ ds ≠ [] := by
      intro f
      constructor
      · intro h
        cases h
      · intro h
        exact absurd (Prod.mk.inj h.1).1.symm h.2
    cases back with
    | nil => exact hnone .unfinished
    | cons => exact hnone .malformed
  | cons d front =>
    simp only [Except.ok.injEq, Prod.mk.injEq]
    refine ⟨fun h => ⟨h, ?_⟩, And.left⟩
    rw [← h.1]
    exact List.cons_ne_nil d front

theorem local_someDigits : Local EndsDigits someDigits := by
  intro cs ds rest h
  obtain ⟨hspan, hne⟩ := someDigits_eq_ok_iff.1 h
  obtain ⟨rfl, hdigits⟩ := Text.eq_append_of_span hspan
  exact ⟨ds, rfl, fun more hmore =>
    someDigits_eq_ok_iff.2 ⟨Text.span_append hdigits hmore, hne⟩⟩

theorem local_wholeDigits : Local EndsDigits wholeDigits := by
  intro cs ds rest h
  obtain ⟨⟨_, _⟩, hdigits, hwhole⟩ := bind_eq_ok.1 h
  obtain ⟨front, rfl, hfront⟩ := local_someDigits _ _ _ hdigits
  dsimp only at hwhole
  split at hwhole
  · cases hwhole
  cases hwhole
  refine ⟨front, rfl, fun more hmore => ?_⟩
  rw [wholeDigits, hfront more hmore]
  simp only [bind, Except.bind]

theorem fractionDigits_of_ne {cs : List Char} (h : ∀ c ∈ cs.head?, c ≠ '.') :
    fractionDigits cs = .ok (none, cs) := by
  unfold fractionDigits
  split
  · exact absurd rfl (h '.' rfl)
  · rfl

theorem local_fractionDigits : Local EndsFraction fractionDigits := by
  have hdigits : Local EndsFraction fun cs => someDigits cs >>= fun result =>
      .ok (some result.1, result.2) :=
    (local_someDigits.mono fun _ => EndsFraction.endsDigits).map some fun _ => rfl
  intro cs fraction rest h
  by_cases hpoint : ∀ c ∈ cs.head?, c ≠ '.'
  · rw [fractionDigits_of_ne hpoint] at h
    cases h
    exact ⟨[], rfl, fun more hmore => fractionDigits_of_ne fun c hc => (hmore c hc).2⟩
  · obtain _ | ⟨c, cs⟩ := cs
    · simp at hpoint
    · obtain rfl : c = '.' := by simpa using hpoint
      exact hdigits.cons _ (fun _ => rfl) h

theorem endsDigits_of_fractionDigits {cs rest : List Char} {fraction : Option (List Char)}
    (h : fractionDigits cs = .ok (fraction, rest)) (hrest : EndsFraction rest) :
    EndsDigits cs := by
  by_cases hpoint : ∀ c ∈ cs.head?, c ≠ '.'
  · rw [fractionDigits_of_ne hpoint] at h
    cases h
    exact hrest.endsDigits
  · intro c hc
    have hc : c = '.' := by simpa [Option.mem_def.1 hc] using hpoint
    rw [hc]
    rfl

def signedDigits (negative : Bool) : Reader (Option Int) := fun cs => do
  let (ds, rest) ← someDigits cs
  let size := ds.foldl (fun n d => n * 10 + digitValue d) 0
  .ok (some (if negative then -(size : Int) else size), rest)

theorem local_signedDigits (negative : Bool) : Local Ends (signedDigits negative) := by
  have hdigits : Local Ends someDigits := local_someDigits.mono fun _ hmore c hc => (hmore c hc).1
  exact hdigits.map (fun ds =>
    let size : Nat := ds.foldl (fun n d => n * 10 + digitValue d) 0
    some (if negative then -(size : Int) else size)) fun _ => rfl

theorem exponentPart_of_ne {cs : List Char} (h : ∀ c ∈ cs.head?, c ≠ 'e' ∧ c ≠ 'E') :
    exponentPart cs = .ok (none, cs) := by
  cases cs with
  | nil => rfl
  | cons c cs =>
    obtain ⟨he, hE⟩ := h c rfl
    simp [exponentPart, he, hE]

section
variable {c : Char} (hc : c = 'e' ∨ c = 'E') (cs : List Char)
include hc

theorem exponentPart_plus : exponentPart (c :: '+' :: cs) = signedDigits false cs := by
  rw [exponentPart, if_pos hc]
  rfl

theorem exponentPart_minus : exponentPart (c :: '-' :: cs) = signedDigits true cs := by
  rw [exponentPart, if_pos hc]
  rfl

theorem exponentPart_unsigned (hcs : ∀ sign ∈ cs.head?, sign ≠ '+' ∧ sign ≠ '-') :
    exponentPart (c :: cs) = signedDigits false cs := by
  have hplus : ∀ rest, cs ≠ '+' :: rest := by
    rintro rest rfl
    exact (hcs '+' rfl).1 rfl
  have hminus : ∀ rest, cs ≠ '-' :: rest := by
    rintro rest rfl
    exact (hcs '-' rfl).2 rfl
  rw [exponentPart, if_pos hc]
  · rfl
  · exact hplus
  · exact hminus

end

theorem isDigit_of_someDigits {cs ds rest : List Char} (h : someDigits cs = .ok (ds, rest)) :
    ∀ d ∈ cs.head?, d.isDigit = true := by
  obtain ⟨hspan, hne⟩ := someDigits_eq_ok_iff.1 h
  obtain ⟨rfl, hdigits⟩ := Text.eq_append_of_span hspan
  obtain ⟨c, ds, rfl⟩ := List.exists_cons_of_ne_nil hne
  rintro d ⟨⟩
  exact hdigits c List.mem_cons_self

theorem local_exponentPart_letter {c : Char} (hc : c = 'e' ∨ c = 'E') :
    Local Ends fun cs => exponentPart (c :: cs) := by
  intro cs exponent rest h
  by_cases hsign : ∀ sign ∈ cs.head?, sign ≠ '+' ∧ sign ≠ '-'
  · have hread := h.symm.trans (exponentPart_unsigned hc cs hsign)
    obtain ⟨front, rfl, hfront⟩ := local_signedDigits false cs exponent rest hread.symm
    refine ⟨front, rfl, fun more hmore => ?_⟩
    have hmore := hfront more hmore
    obtain ⟨⟨ds, _⟩, hdigits, -⟩ := bind_eq_ok.1 hmore
    refine (exponentPart_unsigned hc _ fun d hd => ?_).trans hmore
    have hdigit := isDigit_of_someDigits hdigits d hd
    constructor <;> rintro rfl <;> cases hdigit
  · obtain _ | ⟨sign, cs⟩ := cs
    · simp at hsign
    by_cases hplus : sign = '+'
    · subst hplus
      exact Local.cons (fun cs => exponentPart (c :: cs)) (local_signedDigits false)
        (exponentPart_plus hc) h
    · obtain rfl : sign = '-' := by simpa [hplus] using hsign
      exact Local.cons (fun cs => exponentPart (c :: cs)) (local_signedDigits true)
        (exponentPart_minus hc) h

theorem local_exponentPart : Local Ends exponentPart := by
  intro cs exponent rest h
  by_cases hletter : ∀ c ∈ cs.head?, c ≠ 'e' ∧ c ≠ 'E'
  · rw [exponentPart_of_ne hletter] at h
    cases h
    exact ⟨[], rfl, fun more hmore => exponentPart_of_ne fun c hc => (hmore c hc).2.2⟩
  · obtain _ | ⟨c, cs⟩ := cs
    · simp at hletter
    have hc : c = 'e' ∨ c = 'E' := by simpa [or_iff_not_imp_left] using hletter
    exact (local_exponentPart_letter hc).cons _ (fun _ => rfl) h

theorem endsFraction_of_exponentPart {cs rest : List Char} {exponent : Option Int}
    (h : exponentPart cs = .ok (exponent, rest)) (hrest : Ends rest) : EndsFraction cs := by
  by_cases hletter : ∀ c ∈ cs.head?, c ≠ 'e' ∧ c ≠ 'E'
  · rw [exponentPart_of_ne hletter] at h
    cases h
    exact fun c hc => ⟨(hrest c hc).1, (hrest c hc).2.1⟩
  · intro c hc
    obtain rfl | rfl : c = 'e' ∨ c = 'E' := by
      by_contra hne
      refine hletter fun d hd => ?_
      obtain rfl : d = c := Option.mem_unique hd hc
      exact not_or.1 hne
    all_goals decide

def assembled (negative : Bool) (ds : List Char) (fraction : Option (List Char))
    (exponent : Option Int) : Reader Number := fun rest =>
  match number? negative ds fraction exponent with
  | some n => .ok (n, rest)
  | none => .error .malformed

def behindFraction (negative : Bool) (ds : List Char) (fraction : Option (List Char)) :
    Reader Number := fun rest => do
  let (exponent, rest) ← exponentPart rest
  assembled negative ds fraction exponent rest

def behindDigits (negative : Bool) (ds : List Char) : Reader Number := fun rest => do
  let (fraction, rest) ← fractionDigits rest
  behindFraction negative ds fraction rest

section
variable {negative : Bool} {ds : List Char} {fraction : Option (List Char)} {exponent : Option Int}
  {cs rest : List Char} {n : Number}

theorem eq_of_assembled (h : assembled negative ds fraction exponent cs = .ok (n, rest)) :
    cs = rest := by
  unfold assembled at h
  split at h <;> cases h
  rfl

theorem local_assembled : Local Ends (assembled negative ds fraction exponent) := by
  unfold assembled
  split
  · exact local_ok _
  · exact local_error _

theorem local_behindFraction : Local Ends (behindFraction negative ds fraction) := by
  refine local_exponentPart.bind (assembled negative ds fraction) ?_ (fun _ => local_assembled)
    fun _ => rfl
  intro exponent cs n rest h hrest
  rwa [eq_of_assembled h]

theorem endsFraction_of_behindFraction (h : behindFraction negative ds fraction cs = .ok (n, rest))
    (hrest : Ends rest) : EndsFraction cs := by
  obtain ⟨⟨exponent, behind⟩, hexponent, h⟩ := bind_eq_ok.1 h
  exact endsFraction_of_exponentPart hexponent (eq_of_assembled h ▸ hrest)

theorem local_behindDigits : Local Ends (behindDigits negative ds) := by
  refine .bind (behindFraction negative ds) local_fractionDigits
    (fun _ _ _ _ => endsFraction_of_behindFraction) (fun _ => local_behindFraction) fun _ => rfl

theorem endsDigits_of_behindDigits (h : behindDigits negative ds cs = .ok (n, rest))
    (hrest : Ends rest) : EndsDigits cs := by
  obtain ⟨⟨fraction, behind⟩, hfraction, h⟩ := bind_eq_ok.1 h
  exact endsDigits_of_fractionDigits hfraction (endsFraction_of_behindFraction h hrest)

end

theorem local_readUnsigned (negative : Bool) : Local Ends (readUnsigned negative) :=
  .bind (behindDigits negative) local_wholeDigits (fun _ _ _ _ => endsDigits_of_behindDigits)
    (fun _ => local_behindDigits) fun _ => rfl

theorem read_of_ne {cs : List Char} (h : ∀ c ∈ cs.head?, c ≠ '-') :
    read cs = readUnsigned false cs := by
  unfold read
  split
  · exact absurd rfl (h '-' rfl)
  · rfl

theorem local_read : Local Ends read := by
  intro cs n rest h
  by_cases hsign : ∀ c ∈ cs.head?, c ≠ '-'
  · rw [read_of_ne hsign] at h
    obtain ⟨front, rfl, hfront⟩ := local_readUnsigned false cs n rest h
    refine ⟨front, rfl, fun more hmore => ?_⟩
    have hmore := hfront more hmore
    obtain ⟨⟨ds, _⟩, hwhole, -⟩ := bind_eq_ok.1 hmore
    obtain ⟨⟨ds', _⟩, hdigits, -⟩ := bind_eq_ok.1 hwhole
    refine (read_of_ne fun c hc => ?_).trans hmore
    have hdigit := isDigit_of_someDigits hdigits c hc
    rintro rfl
    cases hdigit
  · obtain _ | ⟨c, cs⟩ := cs
    · simp at hsign
    obtain rfl : c = '-' := by simpa using hsign
    exact (local_readUnsigned true).cons _ (fun _ => rfl) h

end NumberLiteral

end ConfiguredPredicates.Json.Text
